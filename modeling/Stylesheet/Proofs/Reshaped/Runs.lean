import Stylesheet.Token.Run

/-!
# Runs of reshaped tokens

The scanners of runs tell no closer from another and never look at the places of tokens.  A
function of tokens that keeps all else therefore takes what they cut out of a run to what they cut
out of the reshaped run.
-/

namespace Stylesheet

namespace Token

/-- A function of tokens that keeps their texts, and their kinds but for the shapes of closers. -/
structure Reshapes (reshape : Token -> Token) : Prop where
  text : forall token, (reshape token).text = token.text
  kind : forall token, token.isCloser = false -> (reshape token).kind = token.kind
  closer : forall token, token.isCloser = true -> (reshape token).isCloser = true

namespace Reshapes

variable {reshape : Token -> Token} (h : Reshapes reshape)
include h

/-- What does not tell closers apart says the same of a reshaped token. -/
theorem eq_of_closer {α : Type} {f : TokenKind -> α} {x : α}
    (hf : forall kind : TokenKind, kind.isCloser = true -> f kind = x) (token : Token) :
    f (reshape token).kind = f token.kind := by
  cases hcloser : token.isCloser with
  | false => rw [h.kind token hcloser]
  | true => rw [hf _ hcloser, hf _ (h.closer token hcloser)]

theorem kind_eq_iff {kind : TokenKind} (hkind : kind.isCloser = false) (token : Token) :
    (reshape token).kind = kind <-> token.kind = kind := by
  cases hcloser : token.isCloser with
  | false => rw [h.kind token hcloser]
  | true =>
      have hcloser' := h.closer token hcloser
      refine iff_of_false ?_ ?_
      · rintro rfl
        rw [Token.isCloser, hkind] at hcloser'
        cases hcloser'
      · rintro rfl
        rw [Token.isCloser, hkind] at hcloser
        cases hcloser

theorem exists_start {token : Token} (hcloser : token.isCloser = false) :
    exists start, reshape token = ⟨token.kind, token.text, start⟩ := by
  refine ⟨(reshape token).start, ?_⟩
  rw [← h.kind token hcloser, ← h.text token]

theorem isCloser (token : Token) : (reshape token).isCloser = token.isCloser :=
  h.eq_of_closer (fun _ hkind => hkind) token

theorem isOpener (token : Token) : (reshape token).isOpener = token.isOpener :=
  h.eq_of_closer (x := false) (fun kind hkind => by cases kind <;> first | rfl | cases hkind) token

theorem isTrivia (token : Token) : (reshape token).isTrivia = token.isTrivia :=
  h.eq_of_closer (x := false) (fun kind hkind => by cases kind <;> first | rfl | cases hkind) token

theorem depthAfter (depth : Nat) (token : Token) :
    Run.depthAfter depth (reshape token) = Run.depthAfter depth token := by
  rw [Run.depthAfter, Run.depthAfter, h.isOpener, h.isCloser]

end Reshapes

end Token

namespace Run

/-- A group with a function applied to its tokens. -/
def Group.map (f : Token -> Token) (group : Group) : Group :=
  ⟨group.content.map f, f group.closer, group.rest.map f⟩

variable {reshape : Token -> Token} (h : Token.Reshapes reshape)
include h

theorem text_map (run : List Token) : text (run.map reshape) = text run := by
  have htext : Token.text ∘ reshape = Token.text := funext h.text
  rw [text, List.map_map, htext]
  rfl

theorem trimStart_map (run : List Token) :
    trimStart (run.map reshape) = (trimStart run).map reshape := by
  have htrivia : Token.isTrivia ∘ reshape = Token.isTrivia := funext h.isTrivia
  rw [trimStart, List.dropWhile_map, htrivia]
  rfl

theorem trim_map (run : List Token) : trim (run.map reshape) = (trim run).map reshape := by
  rw [trim, trimStart_map h, ← List.map_reverse, trimStart_map h, ← List.map_reverse]
  rfl

theorem significant_map (run : List Token) :
    significant (run.map reshape) = (significant run).map reshape := by
  have htrivia : (fun token => !Token.isTrivia token) ∘ reshape = fun token => !token.isTrivia :=
    funext fun token => congrArg Bool.not (h.isTrivia token)
  rw [significant, List.filter_map, htrivia]
  rfl

theorem splitTopLevel_map (separates : TokenKind -> Bool) (depth : Nat) (run : List Token) :
    splitTopLevel separates depth (run.map reshape) =
      (splitTopLevel separates depth run).map (List.map reshape) := by
  induction run generalizing depth with
  | nil => rfl
  | cons token rest ih =>
      have hcut : (depth == 0 && separates (reshape token).kind && !(reshape token).isOpener &&
          !(reshape token).isCloser) =
            (depth == 0 && separates token.kind && !token.isOpener && !token.isCloser) := by
        rw [h.isOpener, h.isCloser]
        cases hcloser : token.isCloser with
        | true => simp
        | false => rw [h.kind token hcloser]
      rw [List.map_cons, splitTopLevel, splitTopLevel, hcut, h.depthAfter, ih, ih]
      split
      · rfl
      · cases splitTopLevel separates (depthAfter depth token) rest <;> rfl

theorem splitGroup?_map (depth : Nat) (run : List Token) :
    splitGroup? depth (run.map reshape) = (splitGroup? depth run).map (Group.map reshape) := by
  induction run generalizing depth with
  | nil => rfl
  | cons token rest ih =>
      rw [List.map_cons, splitGroup?, splitGroup?, h.isCloser, h.depthAfter, ih]
      split
      · rfl
      · cases splitGroup? (depthAfter depth token) rest <;> rfl

end Run

end Stylesheet
