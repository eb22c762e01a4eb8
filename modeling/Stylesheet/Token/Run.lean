import Stylesheet.Token.Basic

/-!
# Runs of tokens

The parser works on runs: lists of neighbouring tokens.  Three scanners look at the
brackets of a run, and none of them tells one kind of bracket from another.  `takeUntil`
and `splitTopLevel` let a closer without an opener pass; `splitGroup?` needs every group
to be closed.  Main statements: each scanner only cuts a run, so what it returns is
shorter than what it was given.
-/

namespace Stylesheet
namespace Run

/-- The characters that a run covers. -/
def text (run : List Token) : String :=
  String.join (run.map Token.text)

/-- A run without the whitespace and comments in front of it. -/
def trimStart (run : List Token) : List Token :=
  run.dropWhile Token.isTrivia

/-- A run without the whitespace and comments at either end. -/
def trim (run : List Token) : List Token :=
  (trimStart (trimStart run).reverse).reverse

/-- The tokens of a run that are neither whitespace nor comments. -/
def significant (run : List Token) : List Token :=
  run.filter fun token => !token.isTrivia

theorem trimStart_length_le (run : List Token) : (trimStart run).length ≤ run.length :=
  (List.dropWhile_sublist _).length_le

theorem trim_length_le (run : List Token) : (trim run).length ≤ run.length := by
  have h := trimStart_length_le (trimStart run).reverse
  have h' := trimStart_length_le run
  simp only [trim, List.length_reverse] at h ⊢
  omega

/-! ## Brackets -/

/-- How many groups are open behind a token; outside every group a closer changes nothing. -/
def depthAfter (depth : Nat) (token : Token) : Nat :=
  if token.isOpener then depth + 1
  else if token.isCloser then depth - 1
  else depth

/--
The run up to the first token outside every group that a test stops at, or up to the end
of the source, and what follows.
-/
def takeUntil (stops : TokenKind -> Bool) (depth : Nat) :
    List Token -> List Token × List Token
  | [] => ([], [])
  | token :: rest =>
      if token.kind = .eof || (depth == 0 && stops token.kind) then
        ([], token :: rest)
      else
        let (run, after) := takeUntil stops (depthAfter depth token) rest
        (token :: run, after)

/-- The parts of a run between the separators that stand outside every group. -/
def splitTopLevel (separates : TokenKind -> Bool) (depth : Nat) :
    List Token -> List (List Token)
  | [] => [[]]
  | token :: rest =>
      if depth == 0 && separates token.kind && !token.isOpener && !token.isCloser then
        [] :: splitTopLevel separates 0 rest
      else
        match splitTopLevel separates (depthAfter depth token) rest with
        | [] => [[token]]
        | part :: parts => (token :: part) :: parts

/-- A group behind its opener: its content, its closer and what follows. -/
structure Group where
  content : List Token
  closer : Token
  rest : List Token

/--
Cuts a run that stands inside a group, and inside `depth` further groups within it, at
the closer of the group.
-/
def splitGroup? (depth : Nat) : List Token -> Option Group
  | [] => none
  | token :: rest =>
      if token.isCloser && depth == 0 then
        some ⟨[], token, rest⟩
      else
        match splitGroup? (depthAfter depth token) rest with
        | none => none
        | some group => some { group with content := token :: group.content }

theorem takeUntil_append (stops : TokenKind -> Bool) (depth : Nat) (run : List Token) :
    (takeUntil stops depth run).1 ++ (takeUntil stops depth run).2 = run := by
  induction run generalizing depth with
  | nil =>
      rfl
  | cons token rest ih =>
      unfold takeUntil
      split
      · rfl
      · simp [ih]

theorem takeUntil_rest_length_le (stops : TokenKind -> Bool) (depth : Nat)
    (run : List Token) : (takeUntil stops depth run).2.length ≤ run.length := by
  have h := congrArg List.length (takeUntil_append stops depth run)
  simp only [List.length_append] at h
  omega

theorem splitTopLevel_ne_nil (separates : TokenKind -> Bool) (depth : Nat)
    (run : List Token) : splitTopLevel separates depth run ≠ [] := by
  cases run with
  | nil =>
      simp [splitTopLevel]
  | cons token rest =>
      unfold splitTopLevel
      split
      · simp
      · split <;> simp

/-- No part is longer than the run it was cut from. -/
theorem length_le_of_mem_splitTopLevel {separates : TokenKind -> Bool} {depth : Nat}
    {run part : List Token} (h : part ∈ splitTopLevel separates depth run) :
    part.length ≤ run.length := by
  induction run generalizing depth part with
  | nil =>
      simp only [splitTopLevel, List.mem_singleton] at h
      simp [h]
  | cons token rest ih =>
      unfold splitTopLevel at h
      split at h
      · rcases List.mem_cons.mp h with rfl | h
        · simp
        · exact Nat.le_succ_of_le (ih h)
      · split at h
        · simp_all
        · rename_i first parts heq
          have hfirst := ih (heq ▸ List.mem_cons_self : first ∈ _)
          rcases List.mem_cons.mp h with rfl | h
          · exact Nat.succ_le_succ hfirst
          · exact Nat.le_succ_of_le (ih (heq ▸ List.mem_cons_of_mem _ h))

/-- A group is cut out of the run and nothing is lost. -/
theorem splitGroup?_append {depth : Nat} {run : List Token} {group : Group}
    (h : splitGroup? depth run = some group) :
    group.content ++ group.closer :: group.rest = run := by
  induction run generalizing depth group with
  | nil =>
      simp [splitGroup?] at h
  | cons token rest ih =>
      unfold splitGroup? at h
      split at h
      · cases h
        rfl
      · split at h
        · cases h
        · rename_i inner hinner
          cases h
          simp [ih hinner]

theorem splitGroup?_lengths {depth : Nat} {run : List Token} {group : Group}
    (h : splitGroup? depth run = some group) :
    group.content.length < run.length ∧ group.rest.length < run.length := by
  have := congrArg List.length (splitGroup?_append h)
  simp only [List.length_append, List.length_cons] at this
  omega

end Run
end Stylesheet
