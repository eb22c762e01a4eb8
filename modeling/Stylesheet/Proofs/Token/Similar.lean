import Mathlib.Data.List.Forall2
import Stylesheet.Proofs.Token.Brackets

/-!
# Runs that differ in trivia only

Similar runs have the same tokens but for whitespace, comments, the shapes of their closers and
the names of their functions.  The scanners of runs cut similar runs alike.
-/

namespace Stylesheet

namespace Token

/-- Two tokens are the same but for the shape of a closer and the name of a function. -/
inductive Alike (left right : Token) : Prop
  | kind (h : left.kind = right.kind)
  | closer (h : left.isCloser = true) (h' : right.isCloser = true)
  | function {name name' : String} (h : left.kind = .function name)
      (h' : right.kind = .function name')

/-- Whether all tokens alike to a token are of its kind. -/
def isFixed (kind : TokenKind) : Bool :=
  match kind with
  | .function _ => false
  | kind => !kind.isCloser

namespace Alike

variable {left right : Token}

theorem refl (token : Token) : Alike token token :=
  kind rfl

theorem symm (h : Alike left right) : Alike right left := by
  cases h with
  | kind h => exact kind h.symm
  | closer h h' => exact closer h' h
  | function h h' => exact function h' h

theorem kind_eq (h : Alike left right) (hfixed : isFixed left.kind = true) :
    left.kind = right.kind := by
  cases h with
  | kind h => exact h
  | closer h h' =>
      unfold isFixed at hfixed
      split at hfixed
      · cases hfixed
      · rw [← Token.isCloser, h] at hfixed
        cases hfixed
  | function h h' =>
      rw [h] at hfixed
      cases hfixed

theorem isOpener_eq (h : Alike left right) : left.isOpener = right.isOpener := by
  unfold Token.isOpener
  cases h with
  | kind h => rw [h]
  | closer h h' =>
      have hnot : forall kind : TokenKind, kind.isCloser = true -> kind.isOpener = false := by
        intro kind hkind
        cases kind <;> first | rfl | cases hkind
      rw [hnot _ h, hnot _ h']
  | function h h' =>
      rw [h, h']
      rfl

theorem isCloser_eq (h : Alike left right) : left.isCloser = right.isCloser := by
  cases h with
  | kind h =>
      unfold Token.isCloser
      rw [h]
  | closer h h' => rw [h, h']
  | function h h' =>
      unfold Token.isCloser
      rw [h, h']
      rfl

theorem isTrivia_eq (h : Alike left right) : left.isTrivia = right.isTrivia := by
  unfold Token.isTrivia
  cases h with
  | kind h => rw [h]
  | closer h h' =>
      have hnot : forall kind : TokenKind, kind.isCloser = true -> kind.isTrivia = false := by
        intro kind hkind
        cases kind <;> first | rfl | cases hkind
      rw [hnot _ h, hnot _ h']
  | function h h' =>
      rw [h, h']
      rfl

theorem depthAfter_eq (h : Alike left right) (depth : Nat) :
    Run.depthAfter depth left = Run.depthAfter depth right := by
  unfold Run.depthAfter
  rw [h.isOpener_eq, h.isCloser_eq]

end Alike

end Token

namespace Run

open Token

/-- The first part of a run that is split begins with its first token. -/
theorem exists_splitTopLevel_cons {separates : TokenKind -> Bool} {depth : Nat} {token : Token}
    (rest : List Token)
    (h : (depth == 0 && separates token.kind && !token.isOpener && !token.isCloser) = false) :
    exists part parts, Run.splitTopLevel separates (depthAfter depth token) rest = part :: parts ∧
      Run.splitTopLevel separates depth (token :: rest) = (token :: part) :: parts := by
  rw [Run.splitTopLevel, h, if_neg Bool.false_ne_true]
  split
  · exact absurd ‹_› (splitTopLevel_ne_nil _ _ _)
  · exact ⟨_, _, ‹_›, rfl⟩

/-- Runs whose tokens are alike but for trivia. -/
inductive Similar : List Token -> List Token -> Prop
  | nil : Similar [] []
  | left {token : Token} {run other : List Token} (htrivia : token.isTrivia = true)
      (h : Similar run other) : Similar (token :: run) other
  | right {token : Token} {run other : List Token} (htrivia : token.isTrivia = true)
      (h : Similar run other) : Similar run (token :: other)
  | cons {token token' : Token} {run other : List Token} (halike : Alike token token')
      (h : Similar run other) : Similar (token :: run) (token' :: other)

namespace Similar

variable {run other : List Token}

theorem refl (run : List Token) : Similar run run := by
  induction run with
  | nil => exact nil
  | cons token rest ih => exact cons (Alike.refl token) ih

theorem symm (h : Similar run other) : Similar other run := by
  induction h with
  | nil => exact nil
  | left htrivia h ih => exact right htrivia ih
  | right htrivia h ih => exact left htrivia ih
  | cons halike h ih => exact cons halike.symm ih

theorem append {back back' : List Token} (h : Similar run other) (hback : Similar back back') :
    Similar (run ++ back) (other ++ back') := by
  induction h with
  | nil => exact hback
  | left htrivia h ih => exact left htrivia ih
  | right htrivia h ih => exact right htrivia ih
  | cons halike h ih => exact cons halike ih

theorem trivia_append {front : List Token} (h : Similar run other)
    (hfront : forall token, token ∈ front -> token.isTrivia = true) :
    Similar run (front ++ other) := by
  induction front with
  | nil => exact h
  | cons token front ih =>
      exact right (hfront token List.mem_cons_self)
        (ih fun other hother => hfront other (List.mem_cons_of_mem token hother))

theorem significant (h : Similar run other) :
    List.Forall₂ Alike (significant run) (significant other) := by
  unfold Run.significant
  induction h with
  | nil => exact List.Forall₂.nil
  | left htrivia h ih =>
      rw [List.filter_cons_of_neg (by simp [htrivia])]
      exact ih
  | right htrivia h ih =>
      rw [List.filter_cons_of_neg (by simp [htrivia])]
      exact ih
  | @cons token token' run other halike h ih =>
      rw [List.filter_cons, List.filter_cons, halike.isTrivia_eq]
      split
      · exact List.Forall₂.cons halike ih
      · exact ih

theorem of_significant (h : List.Forall₂ Alike (Run.significant run) (Run.significant other)) :
    Similar run other := by
  unfold Run.significant at h
  induction run generalizing other with
  | nil =>
      rw [List.filter_nil, List.forall₂_nil_left_iff, List.filter_eq_nil_iff] at h
      rw [← List.append_nil other]
      exact nil.trivia_append fun token htoken => by simpa using h token htoken
  | cons token rest ih =>
      rw [List.filter_cons] at h
      split at h
      · rcases List.forall₂_cons_left_iff.mp h with ⟨token', rest', halike, hrest, hother⟩
        rcases List.filter_eq_cons_iff.mp hother with ⟨front, back, rfl, hfront, _, rfl⟩
        exact (cons halike (ih hrest)).trivia_append fun other hmem => by simpa using hfront other hmem
      · rename_i htrivia
        exact left (by simpa using htrivia) (ih h)

end Similar

theorem significant_trim (run : List Token) : significant (trim run) = significant run := by
  have hnone : forall run : List Token, (forall token, token ∈ run -> token.isTrivia = true) ->
      significant run = [] := by
    intro run h
    exact List.filter_eq_nil_iff.mpr fun token htoken => by simp [h token htoken]
  rcases trim_eq_append run with ⟨front, back, hrun, hfront, hback⟩
  conv_rhs => rw [hrun, significant, List.filter_append, List.filter_append]
  change _ = significant front ++ significant (trim run) ++ significant back
  rw [hnone front hfront, hnone back hback, List.nil_append, List.append_nil]

theorem trim_eq_nil_iff {run : List Token} : trim run = [] <-> significant run = [] := by
  constructor
  · intro h
    rw [← significant_trim, h]
    rfl
  · intro h
    rw [← significant_trim] at h
    by_contra hne
    rcases (begins_and_ends_of_trim_ne_nil hne).1 with ⟨token, rest, heq, htrivia⟩
    rw [heq, significant, List.filter_cons, htrivia] at h
    cases h

theorem Similar.trim {run other : List Token} (h : Similar run other) :
    Similar (trim run) (trim other) := by
  refine of_significant ?_
  rw [significant_trim, significant_trim]
  exact h.significant

theorem significant_of_trim {run rest : List Token} {token : Token}
    (h : trim run = token :: rest) : significant run = token :: significant rest := by
  have htrivia : token.isTrivia = false := not_trivia_of_trim_eq_cons h
  rw [← significant_trim, h, significant, List.filter_cons_of_pos (by simp [htrivia])]
  rfl

namespace Similar

variable {run other : List Token}

theorem trim_nil (h : Similar run other) (hrun : Run.trim run = []) : Run.trim other = [] := by
  have hall := h.significant
  rw [trim_eq_nil_iff.mp hrun, List.forall₂_nil_left_iff] at hall
  exact trim_eq_nil_iff.mpr hall

theorem trim_cons (h : Similar run other) {token : Token} {rest : List Token}
    (hrun : Run.trim run = token :: rest) :
    exists token' rest', Run.trim other = token' :: rest' ∧ Alike token token' ∧
      Similar rest rest' := by
  have hall := h.significant
  cases hother : Run.trim other with
  | nil =>
      rw [h.symm.trim_nil hother] at hrun
      cases hrun
  | cons token' rest' =>
      rw [significant_of_trim hrun, significant_of_trim hother, List.forall₂_cons] at hall
      exact ⟨token', rest', rfl, hall.1, of_significant hall.2⟩

/-- Runs of fixed tokens that are similar have the same kinds. -/
theorem kinds_eq (h : Similar run other)
    (hfixed : forall kind, kind ∈ (Run.significant run).map Token.kind -> isFixed kind = true) :
    (Run.significant run).map Token.kind = (Run.significant other).map Token.kind := by
  have hall := h.significant
  generalize Run.significant run = left at hall hfixed
  generalize Run.significant other = right at hall
  clear h
  induction hall with
  | nil => rfl
  | cons halike hrest ih =>
      rw [List.map_cons] at hfixed
      rw [List.map_cons, List.map_cons, halike.kind_eq (hfixed _ List.mem_cons_self),
        ih fun kind hkind => hfixed kind (List.mem_cons_of_mem _ hkind)]

/-- Similar runs are cut alike at the end of the group they stand in. -/
theorem splitGroup? {depth : Nat} {cut : Group} (h : Similar run other)
    (hcut : splitGroup? depth run = some cut) :
    exists cut', Run.splitGroup? depth other = some cut' ∧
      Similar cut.content cut'.content ∧ Similar cut.rest cut'.rest := by
  have hplain : forall token : Token, token.isTrivia = true -> token.isCloser = false :=
    fun token htrivia => (plain_of_isTrivia htrivia).2
  induction h generalizing depth cut with
  | nil => cases hcut
  | left htrivia h ih =>
      rw [Run.splitGroup?, hplain _ htrivia, Bool.false_and, if_neg Bool.false_ne_true,
        depthAfter_trivia htrivia] at hcut
      split at hcut
      · cases hcut
      · rename_i inner hinner
        cases hcut
        rcases ih hinner with ⟨cut', hcut', hcontent, hrest⟩
        exact ⟨cut', hcut', left htrivia hcontent, hrest⟩
  | right htrivia h ih =>
      rcases ih hcut with ⟨cut', hcut', hcontent, hrest⟩
      rw [Run.splitGroup?, hplain _ htrivia, Bool.false_and, if_neg Bool.false_ne_true,
        depthAfter_trivia htrivia, hcut']
      exact ⟨_, rfl, right htrivia hcontent, hrest⟩
  | cons halike h ih =>
      rw [Run.splitGroup?] at hcut ⊢
      rw [← halike.isCloser_eq, ← halike.depthAfter_eq]
      split at hcut
      · rename_i hcloser
        cases hcut
        rw [if_pos hcloser]
        exact ⟨_, rfl, nil, h⟩
      · rename_i hcloser
        rw [if_neg hcloser]
        split at hcut
        · cases hcut
        · rename_i inner hinner
          cases hcut
          rcases ih hinner with ⟨cut', hcut', hcontent, hrest⟩
          rw [hcut']
          exact ⟨_, rfl, cons halike hcontent, hrest⟩

/-- Similar runs are cut alike at a separator that is not trivia. -/
theorem splitTopLevel {separates : TokenKind -> Bool}
    (hseparates : forall kind : TokenKind, kind.isTrivia = true -> separates kind = false)
    (h : Similar run other) (depth : Nat) :
    List.Forall₂ Similar (splitTopLevel separates depth run)
      (splitTopLevel separates depth other) := by
  have htrivia : forall {token : Token} (depth : Nat), token.isTrivia = true ->
      (depth == 0 && separates token.kind && !token.isOpener && !token.isCloser) = false := by
    intro token depth htoken
    rw [hseparates token.kind htoken, Bool.and_false, Bool.false_and, Bool.false_and]
  induction h generalizing depth with
  | nil => exact List.Forall₂.cons nil List.Forall₂.nil
  | @left token run other htoken h ih =>
      rcases exists_splitTopLevel_cons run (htrivia depth htoken) with
        ⟨part, parts, hrun, hcons⟩
      rw [depthAfter_trivia htoken] at hrun
      have hrest := ih depth
      rw [hrun] at hrest
      rcases List.forall₂_cons_left_iff.mp hrest with ⟨part', parts', hpart, hparts, hother⟩
      rw [hcons, hother]
      exact List.Forall₂.cons (left htoken hpart) hparts
  | @right token run other htoken h ih =>
      rcases exists_splitTopLevel_cons other (htrivia depth htoken) with
        ⟨part, parts, hother, hcons⟩
      rw [depthAfter_trivia htoken] at hother
      have hrest := ih depth
      rw [hother] at hrest
      rcases List.forall₂_cons_right_iff.mp hrest with ⟨part', parts', hpart, hparts, hrun⟩
      rw [hcons, hrun]
      exact List.Forall₂.cons (right htoken hpart) hparts
  | @cons token token' run other halike h ih =>
      have heq : (depth == 0 && separates token.kind && !token.isOpener && !token.isCloser) =
          (depth == 0 && separates token'.kind && !token'.isOpener && !token'.isCloser) := by
        rw [halike.isOpener_eq, halike.isCloser_eq]
        cases halike with
        | kind hkind => rw [hkind]
        | closer _ hcloser => rw [hcloser, Bool.not_true, Bool.and_false, Bool.and_false]
        | function _ hkind =>
            have hopener : token'.isOpener = true := by
              unfold Token.isOpener
              rw [hkind]
              rfl
            simp only [hopener, Bool.not_true, Bool.and_false, Bool.false_and]
      cases hmark : (depth == 0 && separates token.kind && !token.isOpener && !token.isCloser) with
      | true =>
          rw [Run.splitTopLevel, Run.splitTopLevel, ← heq, hmark, if_pos rfl, if_pos rfl]
          exact List.Forall₂.cons nil (ih 0)
      | false =>
          rcases exists_splitTopLevel_cons run hmark with ⟨part, parts, hrun, hcons⟩
          rcases exists_splitTopLevel_cons other (heq.symm.trans hmark) with
            ⟨part', parts', hother, hcons'⟩
          have hrest := ih (depthAfter depth token)
          rw [hrun, halike.depthAfter_eq, hother] at hrest
          rw [hcons, hcons']
          rcases List.forall₂_cons.mp hrest with ⟨hpart, hparts⟩
          exact List.Forall₂.cons (cons halike hpart) hparts

end Similar

/-! ## Runs with the same brackets -/

/-- The tokens of two runs open and close groups alike, trivia aside. -/
def Tallies (run other : List Token) : Prop :=
  List.Forall₂ (fun token token' : Token =>
    token.isOpener = token'.isOpener ∧ token.isCloser = token'.isCloser)
      (significant run) (significant other)

theorem Similar.tallies {run other : List Token} (h : Similar run other) : Tallies run other :=
  h.significant.imp fun _ _ halike => ⟨halike.isOpener_eq, halike.isCloser_eq⟩

theorem tallies_of_significant_eq {run other : List Token}
    (h : significant run = significant other) : Tallies run other := by
  rw [Tallies, h]
  exact List.forall₂_same.mpr fun _ _ => ⟨rfl, rfl⟩

theorem significant_append (front back : List Token) :
    significant (front ++ back) = significant front ++ significant back :=
  List.filter_append front back

theorem depthBehind_significant (depth : Nat) (run : List Token) :
    depthBehind depth (significant run) = depthBehind depth run := by
  induction run generalizing depth with
  | nil => rfl
  | cons token rest ih =>
      rw [significant, List.filter_cons]
      split
      · exact ih (depthAfter depth token)
      · rename_i htrivia
        have hsame : depthAfter depth token = depth := depthAfter_trivia (by simpa using htrivia) depth
        change depthBehind depth (significant rest) = depthBehind (depthAfter depth token) rest
        rw [hsame, ih]

namespace Tallies

variable {run other : List Token}

theorem append {back back' : List Token} (h : Tallies run other) (hback : Tallies back back') :
    Tallies (run ++ back) (other ++ back') := by
  unfold Tallies
  rw [significant_append, significant_append]
  exact List.rel_append h hback

theorem trans {last : List Token} (h : Tallies run other) (hlast : Tallies other last) :
    Tallies run last := by
  unfold Tallies at h hlast ⊢
  generalize Run.significant run = left at h
  generalize Run.significant other = middle at h hlast
  generalize Run.significant last = right at hlast
  induction h generalizing right with
  | nil => exact hlast
  | cons htoken hrest ih =>
      cases hlast with
      | cons htoken' hrest' =>
          exact List.Forall₂.cons
            ⟨htoken.1.trans htoken'.1, htoken.2.trans htoken'.2⟩ (ih _ hrest')

theorem length_eq (h : Tallies run other) :
    (Run.significant run).length = (Run.significant other).length :=
  List.Forall₂.length_eq h

theorem depthBehind_eq (h : Tallies run other) (depth : Nat) :
    depthBehind depth run = depthBehind depth other := by
  rw [← depthBehind_significant depth run, ← depthBehind_significant depth other]
  unfold Tallies at h
  generalize Run.significant run = left at h
  generalize Run.significant other = right at h
  induction h generalizing depth with
  | nil => rfl
  | @cons token token' rest rest' htoken hrest ih =>
      have hsame : depthAfter depth token = depthAfter depth token' := by
        rw [depthAfter, depthAfter, htoken.1, htoken.2]
      change depthBehind (depthAfter depth token) rest = depthBehind (depthAfter depth token') rest'
      rw [hsame, ih]

end Tallies

end Run
end Stylesheet
