import Stylesheet.Proofs.Token.Brackets

/-!
# Parts between separators

The parts of a run lie between the separators that stand outside of every group.  Main statement:
the scanner of runs finds these parts, whatever brackets the run leaves open.
-/

namespace Stylesheet
namespace Run

variable {separates : TokenKind -> Bool} {depth : Nat} {token : Token} {run rest : List Token}

/-- A token that separates parts, which no bracket does. -/
def IsSeparator (separates : TokenKind -> Bool) (token : Token) : Prop :=
  separates token.kind = true ∧ token.isOpener = false ∧ token.isCloser = false

/-- Every separator of a run stands within a group, when that many are open around the run. -/
def IsWhole (separates : TokenKind -> Bool) (depth : Nat) (run : List Token) : Prop :=
  forall front mark back, run = front ++ mark :: back -> IsSeparator separates mark ->
    depthBehind depth front ≠ 0

/-- The parts of a run, with a separator outside of every group between them. -/
inductive AreSeparated (separates : TokenKind -> Bool) : List Token -> List (List Token) -> Prop
  | last {part : List Token} (hpart : IsWhole separates 0 part) : AreSeparated separates part [part]
  | cons {part rest : List Token} {mark : Token} {parts : List (List Token)}
      (hpart : IsWhole separates 0 part) (hdepth : depthBehind 0 part = 0)
      (hmark : IsSeparator separates mark) (hrest : AreSeparated separates rest parts) :
      AreSeparated separates (part ++ mark :: rest) (part :: parts)

theorem isWhole_nil : IsWhole separates depth [] := by
  intro front mark back hrun
  exact absurd hrun.symm (List.append_ne_nil_of_right_ne_nil _ (List.cons_ne_nil _ _))

theorem isWhole_cons :
    IsWhole separates depth (token :: rest) <->
      (IsSeparator separates token -> depth ≠ 0) ∧
        IsWhole separates (depthAfter depth token) rest := by
  constructor
  · intro h
    refine ⟨h [] token rest rfl, ?_⟩
    intro front mark back hrest
    exact h (token :: front) mark back (congrArg (token :: ·) hrest)
  · rintro ⟨htoken, hrest⟩ front mark back hrun hmark
    cases front with
    | nil =>
        rcases List.cons.inj hrun with ⟨rfl, _⟩
        exact htoken hmark
    | cons first front =>
        rcases List.cons.inj hrun with ⟨rfl, hbehind⟩
        exact hrest front mark back hbehind hmark

theorem isSeparator_and_outside :
    (depth == 0 && separates token.kind && !token.isOpener && !token.isCloser) = true <->
      depth = 0 ∧ IsSeparator separates token := by
  simp [IsSeparator, and_assoc]

/-! ## The scanner -/

theorem IsWhole.splitTopLevel_append {front : List Token} (h : IsWhole separates depth front)
    {back part : List Token} {parts : List (List Token)}
    (hback : splitTopLevel separates (depthBehind depth front) back = part :: parts) :
    splitTopLevel separates depth (front ++ back) = (front ++ part) :: parts := by
  unfold depthBehind at hback
  induction front generalizing depth with
  | nil => exact hback
  | cons token front ih =>
      rcases isWhole_cons.mp h with ⟨htoken, hfront⟩
      rw [List.cons_append, splitTopLevel, if_neg, ih hfront hback]
      · rfl
      · intro hcut
        rcases isSeparator_and_outside.mp hcut with ⟨hdepth, hseparator⟩
        exact htoken hseparator hdepth

theorem IsWhole.splitTopLevel_last (h : IsWhole separates 0 run) :
    splitTopLevel separates 0 run = [run] := by
  have hnil : splitTopLevel separates (depthBehind 0 run) [] = [] :: [] := rfl
  have happend := h.splitTopLevel_append hnil
  rwa [List.append_nil] at happend

theorem IsWhole.splitTopLevel_separator (h : IsWhole separates 0 run)
    (hdepth : depthBehind 0 run = 0) (htoken : IsSeparator separates token) (rest : List Token) :
    splitTopLevel separates 0 (run ++ token :: rest) = run :: splitTopLevel separates 0 rest := by
  have hback : splitTopLevel separates (depthBehind 0 run) (token :: rest) =
      [] :: splitTopLevel separates 0 rest := by
    rw [hdepth, splitTopLevel, if_pos (isSeparator_and_outside.mpr ⟨rfl, htoken⟩)]
  rw [h.splitTopLevel_append hback, List.append_nil]

/-- The first part of a run reaches up to its end, or up to a separator outside of every group. -/
theorem splitTopLevel_eq_cons {first : List Token} {parts : List (List Token)}
    (h : splitTopLevel separates depth run = first :: parts) :
    IsWhole separates depth first ∧
      ((run = first ∧ parts = []) ∨
        exists mark rest, run = first ++ mark :: rest ∧ IsSeparator separates mark ∧
          depthBehind depth first = 0 ∧ parts = splitTopLevel separates 0 rest) := by
  induction run generalizing depth first with
  | nil =>
      cases h
      exact ⟨isWhole_nil, Or.inl ⟨rfl, rfl⟩⟩
  | cons token rest ih =>
      unfold splitTopLevel at h
      split at h
      · rename_i hcut
        rcases isSeparator_and_outside.mp hcut with ⟨hdepth, hseparator⟩
        cases h
        exact ⟨isWhole_nil, Or.inr ⟨token, rest, rfl, hseparator, hdepth, rfl⟩⟩
      · rename_i hcut
        have htoken : IsSeparator separates token -> depth ≠ 0 := fun hseparator hdepth =>
          hcut (isSeparator_and_outside.mpr ⟨hdepth, hseparator⟩)
        split at h
        · rename_i hnil
          exact absurd hnil (splitTopLevel_ne_nil _ _ _)
        · rename_i inner later hinner
          cases h
          rcases ih hinner with ⟨hwhole, hends⟩
          refine ⟨isWhole_cons.mpr ⟨htoken, hwhole⟩, ?_⟩
          rcases hends with ⟨rfl, rfl⟩ | ⟨mark, more, rfl, hmark, hdepth, hparts⟩
          · exact Or.inl ⟨rfl, rfl⟩
          · exact Or.inr ⟨mark, more, rfl, hmark, hdepth, hparts⟩

/-- The scanner finds the parts of a run. -/
theorem splitTopLevel_eq_iff {parts : List (List Token)} :
    splitTopLevel separates 0 run = parts <-> AreSeparated separates run parts := by
  constructor
  · intro h
    induction parts generalizing run with
    | nil => exact absurd h (splitTopLevel_ne_nil _ _ _)
    | cons first parts ih =>
        rcases splitTopLevel_eq_cons h with ⟨hfirst, hends⟩
        rcases hends with ⟨rfl, rfl⟩ | ⟨mark, rest, rfl, hmark, hdepth, hparts⟩
        · exact AreSeparated.last hfirst
        · exact AreSeparated.cons hfirst hdepth hmark (ih hparts.symm)
  · intro h
    induction h with
    | last hpart => exact hpart.splitTopLevel_last
    | cons hpart hdepth hmark hrest ih =>
        rw [hpart.splitTopLevel_separator hdepth hmark, ih]

end Run
end Stylesheet
