import Stylesheet.Proofs.Token.Parts

/-!
# Runs without a stop

A run in which no test stops is passed as a whole, and the scanner goes on behind it.  Main
statement: the scanner finds the one place where a run ends.
-/

namespace Stylesheet
namespace Run

variable {stops : TokenKind -> Bool}

/-- No test stops within a run that is read with groups open around it. -/
def Uncut (stops : TokenKind -> Bool) : Nat -> List Token -> Prop
  | _, [] => True
  | depth, token :: rest =>
      token.kind ≠ .eof ∧ (depth = 0 -> stops token.kind = false) ∧
        Uncut stops (depthAfter depth token) rest

theorem uncut_append {depth : Nat} {front back : List Token} :
    Uncut stops depth (front ++ back) <->
      Uncut stops depth front ∧ Uncut stops (depthBehind depth front) back := by
  unfold depthBehind
  induction front generalizing depth with
  | nil => exact ⟨fun h => ⟨trivial, h⟩, And.right⟩
  | cons token front ih =>
      rw [List.cons_append, Uncut, Uncut, ih, and_assoc, and_assoc]
      rfl

theorem Uncut.mono {stops' : TokenKind -> Bool} {depth : Nat} {run : List Token}
    (h : Uncut stops depth run) (hstops : forall kind, stops kind = false -> stops' kind = false) :
    Uncut stops' depth run := by
  induction run generalizing depth with
  | nil => trivial
  | cons token rest ih =>
      rcases h with ⟨heof, hkind, hrest⟩
      exact ⟨heof, fun hdepth => hstops _ (hkind hdepth), ih hrest⟩

theorem Uncut.trim {depth : Nat} {run : List Token} (h : Uncut stops depth run) :
    Uncut stops depth (trim run) := by
  rcases trim_eq_append run with ⟨front, back, hrun, hfront, hback⟩
  rw [hrun, uncut_append, uncut_append, depthBehind_trivia hfront] at h
  exact h.1.2

/-- Within a group nothing stops. -/
theorem Closes.uncut_add {depth around : Nat} {run : List Token} (h : Closes depth run)
    (haround : around ≠ 0) : Uncut stops (depth + around) run := by
  induction run generalizing depth with
  | nil => trivial
  | cons token rest ih =>
      rcases h with ⟨heof, hcloser, hrest⟩
      refine ⟨heof, ?_, ?_⟩
      · intro hdepth
        omega
      · rw [depthAfter_add hcloser]
        exact ih hrest

/-- Behind the opener of a group no test stops up to its closer. -/
theorem uncut_behind_opener {content : List Token} (h : Closes 0 content) {closer : Token}
    (hcloser : closer.isCloser = true) (depth : Nat) :
    Uncut stops (depth + 1) (content ++ [closer]) := by
  have hinner : Uncut stops (0 + (depth + 1)) content := h.uncut_add (Nat.succ_ne_zero depth)
  rw [Nat.zero_add] at hinner
  rw [uncut_append, h.depthBehind]
  refine ⟨hinner, (closes_closer hcloser).left, ?_, trivial⟩
  intro hdepth
  exact absurd hdepth (Nat.succ_ne_zero depth)

theorem uncut_group {content : List Token} (h : Closes 0 content) {opener closer : Token}
    (hopener : opener.isOpener = true) (hcloser : closer.isCloser = true)
    (hstops : stops opener.kind = false) : Uncut stops 0 (opener :: content ++ [closer]) := by
  refine ⟨?_, fun _ => hstops, ?_⟩
  · intro heof
    rw [Token.isOpener, heof] at hopener
    cases hopener
  · rw [depthAfter_opener hopener]
    exact uncut_behind_opener h hcloser 0

theorem uncut_plain {run : List Token} (h : forall token, token ∈ run -> isPlain token.kind = true)
    (hstops : forall token, token ∈ run -> stops token.kind = false) (depth : Nat) :
    Uncut stops depth run := by
  induction run with
  | nil => trivial
  | cons token rest ih =>
      have htoken := h token List.mem_cons_self
      simp only [isPlain, Bool.and_eq_true, Bool.not_eq_true', bne_iff_ne] at htoken
      rcases htoken with ⟨⟨hopener, hcloser⟩, heof⟩
      refine ⟨heof, fun _ => hstops token List.mem_cons_self, ?_⟩
      rw [depthAfter_plain hopener hcloser]
      exact ih (fun other hother => h other (List.mem_cons_of_mem token hother))
        fun other hother => hstops other (List.mem_cons_of_mem token hother)

theorem uncut_token {token : Token} (h : isPlain token.kind = true)
    (hstops : stops token.kind = false) : Uncut stops 0 [token] :=
  uncut_plain (fun _ hother => List.mem_singleton.mp hother ▸ h)
    (fun _ hother => List.mem_singleton.mp hother ▸ hstops) 0

/-- Outside of groups a test is asked of fewer tokens than with none open. -/
theorem Closes.uncut {run : List Token} (hcloses : Closes 0 run) (h : Uncut stops 0 run)
    (depth : Nat) : Uncut stops depth run := by
  cases depth with
  | zero => exact h
  | succ depth =>
      have huncut : Uncut stops (0 + (depth + 1)) run :=
        hcloses.uncut_add (Nat.succ_ne_zero depth)
      rwa [Nat.zero_add] at huncut

/-- A run is cut nowhere that another is not, and closes its groups when the other does. -/
structure Follows (stops : TokenKind -> Bool) (run other : List Token) : Prop where
  uncut : forall depth, Uncut stops depth run -> Uncut stops depth other
  depth : depthBehind 0 run = 0 -> depthBehind 0 other = 0

theorem follows_trim (run : List Token) : Follows stops run (trim run) where
  uncut := fun _ h => h.trim
  depth := fun h => (depthBehind_trim 0 run).trans h

theorem Closes.follows {other : List Token} (hcloses : Closes 0 other)
    (huncut : Uncut stops 0 other) (run : List Token) : Follows stops run other where
  uncut := fun depth _ => hcloses.uncut huncut depth
  depth := fun _ => hcloses.depthBehind 0

/-! ## Up to a stop -/

theorem Uncut.takeUntil_append {depth : Nat} {front : List Token} (h : Uncut stops depth front)
    (back : List Token) :
    takeUntil stops depth (front ++ back) =
      (front ++ (takeUntil stops (depthBehind depth front) back).1,
        (takeUntil stops (depthBehind depth front) back).2) := by
  unfold depthBehind
  induction front generalizing depth with
  | nil => rfl
  | cons token front ih =>
      rcases h with ⟨heof, hstops, hfront⟩
      have hgo : (token.kind = .eof || (depth == 0 && stops token.kind)) = false := by
        rw [Bool.or_eq_false_iff, decide_eq_false_iff_not, Bool.and_eq_false_iff]
        refine ⟨heof, ?_⟩
        by_cases hdepth : depth = 0
        · exact Or.inr (hstops hdepth)
        · exact Or.inl (beq_false_of_ne hdepth)
      rw [List.cons_append, takeUntil, hgo, if_neg Bool.false_ne_true, ih hfront]
      rfl

theorem Uncut.takeUntil_mark {depth : Nat} {run : List Token} {mark : Token}
    (h : Uncut stops depth run)
    (hends : mark.kind = .eof ∨ depthBehind depth run = 0 ∧ stops mark.kind = true)
    (rest : List Token) : Run.takeUntil stops depth (run ++ mark :: rest) = (run, mark :: rest) := by
  have hstop : Run.takeUntil stops (depthBehind depth run) (mark :: rest) = ([], mark :: rest) := by
    rw [Run.takeUntil, if_pos]
    simpa using hends
  rw [h.takeUntil_append, hstop, List.append_nil]

/-- What a run ends before: the end of the source, or a stop outside of groups. -/
def IsEnd (stops : TokenKind -> Bool) (rest : List Token) : Prop :=
  forall token, token ∈ rest.head? -> token.kind = .eof ∨ stops token.kind = true

theorem Uncut.takeUntil {front : List Token} {depth : Nat} (h : Uncut stops depth front)
    (hdepth : depthBehind depth front = 0) {back : List Token} (hback : IsEnd stops back) :
    takeUntil stops depth (front ++ back) = (front, back) := by
  cases back with
  | nil =>
      rw [h.takeUntil_append]
      exact Prod.ext (List.append_nil front) rfl
  | cons mark rest =>
      exact h.takeUntil_mark ((hback mark rfl).imp_right fun hstops => ⟨hdepth, hstops⟩) rest

/-! ## Where a run ends -/

theorem uncut_iff {depth : Nat} {run : List Token} :
    Uncut stops depth run <-> forall front token back, run = front ++ token :: back ->
      token.kind ≠ .eof ∧ (depthBehind depth front = 0 -> stops token.kind = false) := by
  induction run generalizing depth with
  | nil =>
      constructor
      · intro _ front token back hnil
        exact absurd hnil.symm (List.append_ne_nil_of_right_ne_nil _ (List.cons_ne_nil _ _))
      · exact fun _ => trivial
  | cons first rest ih =>
      rw [Uncut, ih]
      constructor
      · intro h front token back hrun
        rcases h with ⟨heof, hstops, hrest⟩
        cases front with
        | nil =>
            rcases List.cons.inj hrun with ⟨rfl, _⟩
            exact ⟨heof, hstops⟩
        | cons _ front =>
            rcases List.cons.inj hrun with ⟨rfl, hbehind⟩
            exact hrest front token back hbehind
      · intro h
        rcases h [] first rest rfl with ⟨heof, hstops⟩
        refine ⟨heof, hstops, ?_⟩
        intro front token back hrest
        exact h (first :: front) token back (congrArg (first :: ·) hrest)

theorem uncut_takeUntil (stops : TokenKind -> Bool) (depth : Nat) (tokens : List Token) :
    Uncut stops depth (takeUntil stops depth tokens).1 := by
  induction tokens generalizing depth with
  | nil => trivial
  | cons token rest ih =>
      unfold takeUntil
      split
      · trivial
      · rename_i hgo
        rw [Bool.not_eq_true, Bool.or_eq_false_iff, decide_eq_false_iff_not,
          Bool.and_eq_false_iff, beq_eq_false_iff_ne] at hgo
        rcases hgo with ⟨heof, hstops⟩
        refine ⟨heof, ?_, ih (depthAfter depth token)⟩
        intro hdepth
        exact hstops.resolve_left fun hne => hne hdepth

theorem ends_takeUntil {depth : Nat} {tokens run rest : List Token} {mark : Token}
    (h : takeUntil stops depth tokens = (run, mark :: rest)) :
    mark.kind = .eof ∨ depthBehind depth run = 0 ∧ stops mark.kind = true := by
  induction tokens generalizing depth run with
  | nil => cases h
  | cons token tokens ih =>
      rw [takeUntil] at h
      split at h
      · rename_i hstop
        cases h
        rw [Bool.or_eq_true, decide_eq_true_eq, Bool.and_eq_true, beq_iff_eq] at hstop
        exact hstop
      · cases htake : takeUntil stops (depthAfter depth token) tokens with
        | mk inner after =>
            rw [htake] at h
            cases h
            have hends := ih htake
            exact hends

/--
A run ends in front of a mark: no test stops within the run, brackets counted from its first
token, and the mark stops it, or is the end of the source.
-/
structure IsCut (stops : TokenKind -> Bool) (run : List Token) (mark : Token) : Prop where
  passes : forall front token back, run = front ++ token :: back ->
    token.kind ≠ .eof ∧ (depthBehind 0 front = 0 -> stops token.kind = false)
  ends : mark.kind = .eof ∨ depthBehind 0 run = 0 ∧ stops mark.kind = true

theorem IsCut.kind_ne_eof {run : List Token} {token mark : Token} (h : IsCut stops run mark)
    (hmem : token ∈ run) : token.kind ≠ .eof := by
  rcases List.append_of_mem hmem with ⟨front, back, hrun⟩
  exact (h.passes front token back hrun).left

theorem IsCut.kind_ne_eof_of_mark {run : List Token} {token mark : Token} {kind : TokenKind}
    (h : IsCut stops run mark) (hmark : mark.kind = kind) (hkind : kind ≠ .eof)
    (hmem : token ∈ run ++ [mark]) : token.kind ≠ .eof := by
  rcases List.mem_append.mp hmem with hmem | hmem
  · exact h.kind_ne_eof hmem
  · rw [List.mem_singleton.mp hmem, hmark]
    exact hkind

theorem IsCut.takeUntil {run : List Token} {mark : Token} (h : IsCut stops run mark)
    (rest : List Token) : Run.takeUntil stops 0 (run ++ mark :: rest) = (run, mark :: rest) :=
  (uncut_iff.mpr h.passes).takeUntil_mark h.ends rest

/-- The scanner finds the one place where a run ends. -/
theorem takeUntil_eq_iff {tokens run rest : List Token} {mark : Token} :
    Run.takeUntil stops 0 tokens = (run, mark :: rest) <->
      tokens = run ++ mark :: rest ∧ IsCut stops run mark := by
  constructor
  · intro h
    have happend := takeUntil_append stops 0 tokens
    have huncut := uncut_takeUntil stops 0 tokens
    rw [h] at happend huncut
    exact ⟨happend.symm, uncut_iff.mp huncut, ends_takeUntil h⟩
  · intro h
    rcases h with ⟨rfl, hcut⟩
    exact hcut.takeUntil rest

/-- The end of the source ends every run. -/
theorem IsCut.of_eof {run : List Token} {mark last : Token} (h : IsCut stops run mark)
    (hlast : last.kind = .eof) : IsCut stops run last :=
  ⟨h.passes, Or.inl hlast⟩

/-- The scanner goes on behind the first token of a run. -/
theorem IsCut.takeUntil_tail {run : List Token} {first mark : Token}
    (h : IsCut stops (first :: run) mark) (rest : List Token) :
    Run.takeUntil stops (depthAfter 0 first) (run ++ mark :: rest) = (run, mark :: rest) := by
  rcases uncut_iff.mpr h.passes with ⟨_, _, hrun⟩
  exact hrun.takeUntil_mark h.ends rest

/-! ## Between separators -/

theorem Uncut.isWhole {depth : Nat} {run : List Token} (h : Uncut stops depth run) :
    IsWhole stops depth run := by
  induction run generalizing depth with
  | nil => exact isWhole_nil
  | cons token rest ih =>
      rcases h with ⟨_, hstops, hrest⟩
      refine isWhole_cons.mpr ⟨?_, ih hrest⟩
      intro hseparator hdepth
      have hkind := hseparator.left
      rw [hstops hdepth] at hkind
      cases hkind

theorem Uncut.splitTopLevel_cons {run : List Token} (h : Uncut stops 0 run)
    (hcloses : Closes 0 run) {mark : Token} (hmark : isPlain mark.kind = true)
    (hstops : stops mark.kind = true) (rest : List Token) :
    splitTopLevel stops 0 (run ++ mark :: rest) = run :: splitTopLevel stops 0 rest := by
  have hplain : mark.isOpener = false ∧ mark.isCloser = false := by
    simp only [isPlain, Bool.and_eq_true, Bool.not_eq_true'] at hmark
    exact hmark.1
  exact h.isWhole.splitTopLevel_separator (hcloses.depthBehind 0) ⟨hstops, hplain⟩ rest

end Run
end Stylesheet
