import Stylesheet.Proofs.Reshaped.Runs
import Stylesheet.Proofs.Token.Seamless

/-!
# Runs of moved tokens

The scanners of runs look at the kinds of tokens and never at their places, so what they cut
out of moved tokens is what they cut out of the tokens, moved.
-/

namespace Stylesheet

variable {place : Position -> Position}

namespace Token

@[simp] theorem kind_moved (token : Token) : (token.moved place).kind = token.kind :=
  rfl

@[simp] theorem text_moved (token : Token) : (token.moved place).text = token.text :=
  rfl

theorem reshapes_moved (place : Position -> Position) : Reshapes (Token.moved place) where
  text := fun _ => rfl
  kind := fun _ _ => rfl
  closer := fun _ hcloser => hcloser

end Token

namespace Run

open Token

/-- A run whose tokens are said to start elsewhere. -/
def moved (place : Position -> Position) (run : List Token) : List Token :=
  run.map (Token.moved place)

@[simp] theorem moved_nil : moved place [] = [] :=
  rfl

@[simp] theorem moved_cons (token : Token) (run : List Token) :
    moved place (token :: run) = token.moved place :: moved place run :=
  rfl

@[simp] theorem moved_append (front back : List Token) :
    moved place (front ++ back) = moved place front ++ moved place back :=
  List.map_append

@[simp] theorem text_moved (run : List Token) : text (moved place run) = text run :=
  text_map (reshapes_moved place) run

theorem trimStart_moved (run : List Token) :
    trimStart (moved place run) = moved place (trimStart run) :=
  trimStart_map (reshapes_moved place) run

theorem trim_moved (run : List Token) : trim (moved place run) = moved place (trim run) :=
  trim_map (reshapes_moved place) run

@[simp] theorem depthAfter_moved (depth : Nat) (token : Token) :
    depthAfter depth (token.moved place) = depthAfter depth token :=
  rfl

/-- Unlike the scanners that only count brackets, this one may stop at a closer of one shape. -/
theorem takeUntil_moved (stops : TokenKind -> Bool) (depth : Nat) (run : List Token) :
    takeUntil stops depth (moved place run) =
      (moved place (takeUntil stops depth run).1, moved place (takeUntil stops depth run).2) := by
  induction run generalizing depth with
  | nil => rfl
  | cons token rest ih =>
      rw [moved_cons, takeUntil, takeUntil, kind_moved, depthAfter_moved, ih]
      split <;> rfl

end Run

end Stylesheet
