import Stylesheet.Proofs.Token.Balanced

/-!
# Brackets of one shape

The scanners of runs count brackets and never compare their shapes.  A run is mended by giving every
closer the shape of the opener that it closes.  Main statements: every group that is found in a
mended run is closed by its own shape, with all the groups in it, and mending leaves a run as it is
exactly when this holds of the run already.
-/

namespace Stylesheet

namespace TokenKind

/-- The closer of the same shape, for an opener. -/
def closer? : TokenKind -> Option TokenKind
  | function _ => some rightParen
  | leftParen => some rightParen
  | leftBracket => some rightBracket
  | leftBrace => some rightBrace
  | _ => none

theorem isSome_closer? (kind : TokenKind) : kind.closer?.isSome = kind.isOpener := by
  cases kind <;> rfl

theorem isCloser_of_closer? {kind closer : TokenKind} (h : kind.closer? = some closer) :
    closer.isCloser = true := by
  cases kind <;> cases h <;> rfl

end TokenKind

namespace Run

open TokenKind

/--
Every closer of a run closes the opener before it that is still open, and is of its shape, with the
closers of the openers that are open around the run, the innermost first; nothing stays open.
-/
def Pairs : List TokenKind -> List Token -> Prop
  | expected, [] => expected = []
  | expected, token :: rest =>
      match token.kind.closer? with
      | some closer => Pairs (closer :: expected) rest
      | none =>
          if token.isCloser then
            exists later, expected = token.kind :: later ∧ Pairs later rest
          else
            Pairs expected rest

/-- Every group that is found in a run is closed by its own shape, with all the groups in it. -/
def HasPairedGroups (run : List Token) : Prop :=
  forall front opener rest cut, run = front ++ opener :: rest -> opener.isOpener = true ->
    splitGroup? 0 rest = some cut -> Pairs [] (opener :: cut.content ++ [cut.closer])

/-- The closers that are expected behind a token. -/
def expectedAfter (expected : List TokenKind) (token : Token) : List TokenKind :=
  match token.kind.closer? with
  | some closer => closer :: expected
  | none => if token.isCloser then expected.tail else expected

/-- A token in the shape that is expected, if it is a closer and any is. -/
def mendToken (expected : List TokenKind) (token : Token) : Token :=
  if token.isCloser then { token with kind := expected.headD token.kind } else token

/-- A run whose closers are given the shapes of the openers that they close. -/
def mend : List TokenKind -> List Token -> List Token
  | _, [] => []
  | expected, token :: rest => mendToken expected token :: mend (expectedAfter expected token) rest

variable {expected : List TokenKind} {closer : TokenKind} {token : Token} {run rest : List Token}

/-! ## Single tokens -/

theorem isOpener_of_closer? (h : token.kind.closer? = some closer) :
    token.isOpener = true ∧ token.isCloser = false := by
  have hopener : token.isOpener = true := by
    rw [Token.isOpener, ← isSome_closer?, h]
    rfl
  exact ⟨hopener, isCloser_of_isOpener hopener⟩

theorem closer?_eq_none_of_isCloser (h : token.isCloser = true) : token.kind.closer? = none := by
  cases hcloser : token.kind.closer? with
  | none => rfl
  | some closer =>
      rw [(isOpener_of_closer? hcloser).right] at h
      cases h

theorem isOpener_of_closer?_eq_none (h : token.kind.closer? = none) : token.isOpener = false := by
  rw [Token.isOpener, ← isSome_closer?, h]
  rfl

/-- A token opens a group, or closes one, or does neither. -/
inductive Bracketing (token : Token) : Prop
  | opener {closer : TokenKind} (hopener : token.kind.closer? = some closer) : Bracketing token
  | closer (hcloser : token.isCloser = true) : Bracketing token
  | plain (hopener : token.kind.closer? = none) (hcloser : token.isCloser = false) :
      Bracketing token

theorem bracketing (token : Token) : Bracketing token := by
  cases hopener : token.kind.closer? with
  | some closer => exact Bracketing.opener hopener
  | none =>
      cases hcloser : token.isCloser with
      | true => exact Bracketing.closer hcloser
      | false => exact Bracketing.plain hopener hcloser

theorem splitGroup?_opener (h : token.kind.closer? = some closer) (depth : Nat)
    (rest : List Token) :
    splitGroup? depth (token :: rest) =
      (splitGroup? (depth + 1) rest).map fun group =>
        { group with content := token :: group.content } := by
  rcases isOpener_of_closer? h with ⟨hopener, hcloser⟩
  rw [splitGroup?_inside (by simp [hcloser]), depthAfter_opener hopener]

theorem splitGroup?_inner_closer (h : token.isCloser = true) (depth : Nat) (rest : List Token) :
    splitGroup? (depth + 1) (token :: rest) =
      (splitGroup? depth rest).map fun group =>
        { group with content := token :: group.content } := by
  rw [splitGroup?_inside (fun _ => Nat.succ_ne_zero _), depthAfter_closer h, Nat.succ_sub_one]

theorem splitGroup?_plain (hopener : token.kind.closer? = none) (hcloser : token.isCloser = false)
    (depth : Nat) (rest : List Token) :
    splitGroup? depth (token :: rest) =
      (splitGroup? depth rest).map fun group =>
        { group with content := token :: group.content } := by
  rw [splitGroup?_inside (by simp [hcloser]),
    depthAfter_plain (isOpener_of_closer?_eq_none hopener) hcloser]

theorem pairs_opener (h : token.kind.closer? = some closer) :
    Pairs expected (token :: rest) <-> Pairs (closer :: expected) rest := by
  rw [Pairs, h]

theorem pairs_closer (h : token.isCloser = true) :
    Pairs expected (token :: rest) <->
      exists later, expected = token.kind :: later ∧ Pairs later rest := by
  rw [Pairs, closer?_eq_none_of_isCloser h]
  simp only [h, if_true]

theorem pairs_plain (hopener : token.kind.closer? = none) (hcloser : token.isCloser = false) :
    Pairs expected (token :: rest) <-> Pairs expected rest := by
  rw [Pairs, hopener]
  simp only [hcloser, Bool.false_eq_true, if_false]

theorem mend_opener (h : token.kind.closer? = some closer) :
    mend expected (token :: rest) = token :: mend (closer :: expected) rest := by
  rw [mend, mendToken, (isOpener_of_closer? h).right, expectedAfter, h]
  rfl

theorem mend_closer (h : token.isCloser = true) :
    mend expected (token :: rest) =
      { token with kind := expected.headD token.kind } :: mend expected.tail rest := by
  rw [mend, mendToken, if_pos h, expectedAfter, closer?_eq_none_of_isCloser h]
  simp only [h, if_true]

theorem isCloser_headD (hexpected : forall kind, kind ∈ expected -> kind.isCloser = true)
    (hcloser : token.isCloser = true) : (expected.headD token.kind).isCloser = true := by
  cases expected with
  | nil => exact hcloser
  | cons kind expected => exact hexpected kind List.mem_cons_self

theorem mend_plain (hopener : token.kind.closer? = none) (hcloser : token.isCloser = false) :
    mend expected (token :: rest) = token :: mend expected rest := by
  rw [mend, mendToken, hcloser, expectedAfter, hopener]
  simp only [hcloser, Bool.false_eq_true, if_false]

theorem hasPairedGroups_nil : HasPairedGroups [] := by
  intro front opener rest cut hrun
  exact absurd hrun.symm (List.append_ne_nil_of_right_ne_nil _ (List.cons_ne_nil _ _))

theorem hasPairedGroups_cons :
    HasPairedGroups (token :: rest) <->
      (token.isOpener = true -> forall cut, splitGroup? 0 rest = some cut ->
        Pairs [] (token :: cut.content ++ [cut.closer])) ∧ HasPairedGroups rest := by
  constructor
  · intro h
    refine ⟨fun hopener cut => h [] token rest cut rfl hopener, ?_⟩
    intro front opener behind cut hrest
    exact h (token :: front) opener behind cut (congrArg (token :: ·) hrest)
  · rintro ⟨htoken, hrest⟩ front opener behind cut hrun
    cases front with
    | nil =>
        rcases List.cons.inj hrun with ⟨rfl, rfl⟩
        exact fun hopener => htoken hopener cut
    | cons first front =>
        rcases List.cons.inj hrun with ⟨rfl, hbehind⟩
        exact hrest front opener behind cut hbehind

/-! ## Mended runs -/

/-- What is found of a mended run up to the end of a group closes what has been opened in it. -/
theorem pairs_of_splitGroup?_mend {inner around : List TokenKind} {cut : Group}
    (hinner : forall kind, kind ∈ inner -> kind.isCloser = true) (hcloser : closer.isCloser = true)
    (h : splitGroup? inner.length (mend (inner ++ closer :: around) run) = some cut) :
    Pairs (inner ++ [closer]) (cut.content ++ [cut.closer]) := by
  induction run generalizing inner cut with
  | nil => cases h
  | cons token rest ih =>
      cases bracketing token with
      | @opener other hopener =>
          rw [mend_opener hopener, splitGroup?_opener hopener, Option.map_eq_some_iff] at h
          rcases h with ⟨cut, hcut, rfl⟩
          have hother := isCloser_of_closer? hopener
          have hrest : Pairs (other :: inner ++ [closer]) (cut.content ++ [cut.closer]) :=
            ih (List.forall_mem_cons.mpr ⟨hother, hinner⟩) hcut
          exact (pairs_opener hopener).mpr hrest
      | closer hcloses =>
          rw [mend_closer hcloses] at h
          cases inner with
          | nil =>
              have hmended : Token.isCloser { token with kind := closer } = true := hcloser
              rw [List.nil_append, List.headD_cons, List.length_nil,
                splitGroup?_closer hmended] at h
              cases h
              exact (pairs_closer hmended).mpr ⟨[], rfl, rfl⟩
          | cons other inner =>
              rcases List.forall_mem_cons.mp hinner with ⟨hother, hinner⟩
              have hmended : Token.isCloser { token with kind := other } = true := hother
              rw [List.cons_append, List.headD_cons, List.tail_cons, List.length_cons,
                splitGroup?_inner_closer hmended, Option.map_eq_some_iff] at h
              rcases h with ⟨cut, hcut, rfl⟩
              exact (pairs_closer hmended).mpr ⟨_, rfl, ih hinner hcut⟩
      | plain hopener hcloses =>
          rw [mend_plain hopener hcloses, splitGroup?_plain hopener hcloses,
            Option.map_eq_some_iff] at h
          rcases h with ⟨cut, hcut, rfl⟩
          exact (pairs_plain hopener hcloses).mpr (ih hinner hcut)

theorem hasPairedGroups_mend (hexpected : forall kind, kind ∈ expected -> kind.isCloser = true)
    (run : List Token) : HasPairedGroups (mend expected run) := by
  induction run generalizing expected with
  | nil => exact hasPairedGroups_nil
  | cons token rest ih =>
      cases bracketing token with
      | opener hopener =>
          have hcloser := isCloser_of_closer? hopener
          rw [mend_opener hopener, hasPairedGroups_cons]
          refine ⟨?_, ih (List.forall_mem_cons.mpr ⟨hcloser, hexpected⟩)⟩
          intro _ cut hcut
          exact (pairs_opener hopener).mpr
            (@pairs_of_splitGroup?_mend _ _ [] expected cut (by simp) hcloser hcut)
      | closer hcloses =>
          rw [mend_closer hcloses, hasPairedGroups_cons]
          refine ⟨?_, ih fun kind hkind => hexpected kind (List.mem_of_mem_tail hkind)⟩
          intro hopener
          have hkind := isCloser_headD hexpected hcloses
          exact absurd (hkind.symm.trans (isCloser_of_isOpener hopener)) (by decide)
      | plain hopener hcloses =>
          rw [mend_plain hopener hcloses, hasPairedGroups_cons]
          refine ⟨?_, ih hexpected⟩
          intro hopens
          rw [isOpener_of_closer?_eq_none hopener] at hopens
          cases hopens

/-! ## Runs that need no mending -/

theorem Pairs.mend_eq (h : Pairs expected run) (rest : List Token) :
    mend expected (run ++ rest) = run ++ mend [] rest := by
  induction run generalizing expected with
  | nil =>
      obtain rfl : expected = [] := h
      rfl
  | cons token run ih =>
      cases bracketing token with
      | opener hopener =>
          rw [List.cons_append, mend_opener hopener, ih ((pairs_opener hopener).mp h)]
          rfl
      | closer hcloses =>
          rcases (pairs_closer hcloses).mp h with ⟨later, rfl, hrun⟩
          rw [List.cons_append, mend_closer hcloses, List.headD_cons, List.tail_cons, ih hrun]
          rfl
      | plain hopener hcloses =>
          have hrun := (pairs_plain hopener hcloses).mp h
          rw [List.cons_append, mend_plain hopener hcloses, ih hrun]
          rfl

/-- Groups that are open around a run make no difference when the run closes none of them. -/
theorem mend_append_of_not_closed {inner : List TokenKind} (h : splitGroup? inner.length run = none)
    (around : List TokenKind) : mend (inner ++ around) run = mend inner run := by
  induction run generalizing inner with
  | nil => rfl
  | cons token rest ih =>
      cases bracketing token with
      | @opener closer hopener =>
          rw [splitGroup?_opener hopener, Option.map_eq_none_iff] at h
          have hrest : mend (closer :: inner ++ around) rest = mend (closer :: inner) rest := ih h
          rw [mend_opener hopener, mend_opener hopener, ← hrest]
          rfl
      | closer hcloses =>
          cases inner with
          | nil =>
              rw [List.length_nil, splitGroup?_closer hcloses] at h
              cases h
          | cons other inner =>
              rw [List.length_cons, splitGroup?_inner_closer hcloses, Option.map_eq_none_iff] at h
              rw [mend_closer hcloses, mend_closer hcloses, List.cons_append, List.tail_cons,
                List.tail_cons, ih h]
              rfl
      | plain hopener hcloses =>
          rw [splitGroup?_plain hopener hcloses, Option.map_eq_none_iff] at h
          rw [mend_plain hopener hcloses, mend_plain hopener hcloses, ih h]

theorem HasPairedGroups.back {front back : List Token} (h : HasPairedGroups (front ++ back)) :
    HasPairedGroups back := by
  rintro before opener rest cut rfl
  exact h (front ++ before) opener rest cut (List.append_assoc _ _ _).symm

theorem HasPairedGroups.mend_eq (h : HasPairedGroups run) : mend [] run = run := by
  induction hlength : run.length using Nat.strong_induction_on generalizing run with
  | _ length ih =>
      subst hlength
      cases run with
      | nil => rfl
      | cons token rest =>
          rcases hasPairedGroups_cons.mp h with ⟨hgroup, hrest⟩
          have hlater : mend [] rest = rest := ih _ (Nat.lt_succ_self _) hrest rfl
          cases bracketing token with
          | @opener closer hopener =>
              cases hcut : splitGroup? 0 rest with
              | none =>
                  have hopen := @mend_append_of_not_closed rest [] hcut [closer]
                  rw [mend_opener hopener]
                  exact congrArg (token :: ·) (hopen.trans hlater)
              | some cut =>
                  have happend := splitGroup?_append hcut
                  have hwhole :
                      token :: rest = token :: cut.content ++ [cut.closer] ++ cut.rest := by
                    simp [happend]
                  have hafter : mend [] cut.rest = cut.rest := by
                    refine ih _ ?_ (HasPairedGroups.back (hwhole ▸ h)) rfl
                    exact Nat.lt_succ_of_lt (splitGroup?_lengths hcut).right
                  have hpairs := hgroup (isOpener_of_closer? hopener).left cut hcut
                  rw [hwhole, hpairs.mend_eq, hafter]
          | closer hcloses =>
              rw [mend_closer hcloses, List.tail_nil, hlater]
              rfl
          | plain hopener hcloses => rw [mend_plain hopener hcloses, hlater]

theorem mend_eq_self_iff : mend [] run = run <-> HasPairedGroups run := by
  constructor
  · intro h
    rw [← h]
    exact hasPairedGroups_mend (by simp) run
  · exact HasPairedGroups.mend_eq

end Run
end Stylesheet
