import Stylesheet.Proofs.Token.Brackets

/-!
# Balanced runs

A run is balanced by the numbers of its brackets alone, whatever their kinds.  Main statements: a
group ends at the first closer that its content, when it is balanced, leaves over; and a balanced
run that begins with an opener begins with a group.
-/

namespace Stylesheet
namespace Run

/--
A run closes the groups that are open around it, and all that it opens, and nowhere more than have
been opened.
-/
structure Balances (depth : Nat) (run : List Token) : Prop where
  within : forall front, front <+: run ->
    front.countP Token.isCloser ≤ depth + front.countP Token.isOpener
  whole : run.countP Token.isCloser = depth + run.countP Token.isOpener

variable {depth : Nat} {token : Token} {run rest : List Token}

theorem balances_nil : Balances depth [] <-> depth = 0 := by
  constructor
  · intro h
    have := h.whole
    simp only [List.countP_nil] at this
    omega
  · rintro rfl
    refine ⟨?_, rfl⟩
    intro front hfront
    rw [List.prefix_nil.mp hfront]
    exact Nat.zero_le _

theorem forall_prefix_cons {motive : List Token -> Prop} :
    (forall front, front <+: token :: rest -> motive front) <->
      motive [] ∧ forall front, front <+: rest -> motive (token :: front) := by
  constructor
  · intro h
    refine ⟨h [] List.nil_prefix, ?_⟩
    intro front hfront
    exact h (token :: front) (List.cons_prefix_cons.mpr ⟨rfl, hfront⟩)
  · rintro ⟨hnil, hcons⟩ front hfront
    cases front with
    | nil => exact hnil
    | cons other front =>
        rcases List.cons_prefix_cons.mp hfront with ⟨rfl, hrest⟩
        exact hcons front hrest

/-- What a token opens and closes is what it does to the number of groups that are open. -/
theorem countP_cons_depthAfter (h : token.isCloser = true -> depth ≠ 0) (run : List Token) :
    depth + (token :: run).countP Token.isOpener + run.countP Token.isCloser =
      depthAfter depth token + run.countP Token.isOpener +
        (token :: run).countP Token.isCloser := by
  rw [List.countP_cons, List.countP_cons, depthAfter]
  by_cases hopener : token.isOpener = true
  · have hcloser : token.isCloser = false := TokenKind.isCloser_of_isOpener hopener
    simp only [hopener, hcloser, if_true, Bool.false_eq_true, if_false]
    omega
  · rw [Bool.not_eq_true] at hopener
    cases hcloser : token.isCloser with
    | true =>
        have hdepth := h hcloser
        simp only [hopener, if_true, Bool.false_eq_true, if_false]
        omega
    | false =>
        simp only [hopener, Bool.false_eq_true, if_false]
        omega

/-- The brackets of a run behind its first token, counted from what that token leaves open. -/
theorem balances_cons :
    Balances depth (token :: rest) <->
      (token.isCloser = true -> depth ≠ 0) ∧ Balances (depthAfter depth token) rest := by
  constructor
  · rintro ⟨hwithin, hwhole⟩
    have hdepth : token.isCloser = true -> depth ≠ 0 := by
      intro hcloser
      have hfirst := hwithin [token] (List.cons_prefix_cons.mpr ⟨rfl, List.nil_prefix⟩)
      have hopener : token.isOpener = false := by
        rw [← Bool.not_eq_true]
        intro hopener
        rw [Token.isCloser, TokenKind.isCloser_of_isOpener hopener] at hcloser
        cases hcloser
      simp only [List.countP_singleton, hcloser, hopener, if_true, Bool.false_eq_true,
        if_false] at hfirst
      omega
    refine ⟨hdepth, ?_, ?_⟩
    · intro front hfront
      have hbehind := (forall_prefix_cons.mp hwithin).right front hfront
      have hcount := countP_cons_depthAfter hdepth front
      omega
    · have hcount := countP_cons_depthAfter hdepth rest
      omega
  · rintro ⟨hdepth, hwithin, hwhole⟩
    constructor
    · refine forall_prefix_cons.mpr ⟨Nat.zero_le _, ?_⟩
      intro front hfront
      have hbehind := hwithin front hfront
      have hcount := countP_cons_depthAfter hdepth front
      omega
    · have hcount := countP_cons_depthAfter hdepth rest
      omega

/-- A run that closes what it opens is balanced and stays within the source. -/
theorem closes_iff :
    Closes depth run <-> (forall token, token ∈ run -> token.kind ≠ .eof) ∧ Balances depth run := by
  induction run generalizing depth with
  | nil => simp [Closes, balances_nil]
  | cons token rest ih =>
      rw [Closes, ih, balances_cons, List.forall_mem_cons]
      constructor
      · rintro ⟨heof, hcloser, hrest, hbalances⟩
        exact ⟨⟨heof, hrest⟩, hcloser, hbalances⟩
      · rintro ⟨⟨heof, hrest⟩, hcloser, hbalances⟩
        exact ⟨heof, hcloser, hrest, hbalances⟩

theorem splitGroup?_closer (h : token.isCloser = true) (rest : List Token) :
    splitGroup? 0 (token :: rest) = some ⟨[], token, rest⟩ := by
  rw [splitGroup?, h]
  rfl

/-- A group ends at the first closer that its content leaves over. -/
theorem splitGroup?_eq_some_iff {cut : Group} :
    splitGroup? depth run = some cut <->
      run = cut.content ++ cut.closer :: cut.rest ∧ cut.closer.isCloser = true ∧
        Balances depth cut.content := by
  induction run generalizing depth cut with
  | nil =>
      rw [splitGroup?]
      refine iff_of_false (Option.some_ne_none _).symm ?_
      rintro ⟨hrun, _⟩
      exact List.append_ne_nil_of_right_ne_nil _ (List.cons_ne_nil _ _) hrun.symm
  | cons token rest ih =>
      by_cases hends : token.isCloser = true ∧ depth = 0
      · rcases hends with ⟨hcloser, rfl⟩
        rw [splitGroup?_closer hcloser, Option.some.injEq]
        constructor
        · rintro rfl
          exact ⟨rfl, hcloser, balances_nil.mpr rfl⟩
        · rcases cut with ⟨content, closer, after⟩
          rintro ⟨hrun, -, hcontent⟩
          cases content with
          | nil =>
              cases hrun
              rfl
          | cons first content =>
              rw [List.cons_append, List.cons.injEq] at hrun
              rw [← hrun.left] at hcontent
              exact absurd rfl ((balances_cons.mp hcontent).left hcloser)
      · have hinside : token.isCloser = true -> depth ≠ 0 := fun hcloser hdepth =>
          hends ⟨hcloser, hdepth⟩
        rw [splitGroup?_inside hinside, Option.map_eq_some_iff]
        constructor
        · rintro ⟨inner, hinner, rfl⟩
          rcases ih.mp hinner with ⟨hrest, hcloser, hcontent⟩
          refine ⟨?_, hcloser, balances_cons.mpr ⟨hinside, hcontent⟩⟩
          rw [hrest]
          rfl
        · rcases cut with ⟨content, closer, after⟩
          rintro ⟨hrun, hcloser, hcontent⟩
          cases content with
          | nil =>
              cases hrun
              exact absurd (balances_nil.mp hcontent) (hinside hcloser)
          | cons first content =>
              rw [List.cons_append, List.cons.injEq] at hrun
              rcases hrun with ⟨rfl, hrest⟩
              have hbalances := (balances_cons.mp hcontent).right
              exact ⟨⟨content, closer, after⟩, ih.mpr ⟨hrest, hcloser, hbalances⟩, rfl⟩

theorem Balances.splitGroup?_append {closer : Token} (h : Balances 0 run)
    (hcloser : closer.isCloser = true) (rest : List Token) :
    splitGroup? 0 (run ++ [closer] ++ rest) = some ⟨run, closer, rest⟩ :=
  splitGroup?_eq_some_iff.mpr ⟨List.append_assoc _ _ _, hcloser, h⟩

/-- A run that closes a group which is open around it has the end of that group. -/
theorem Balances.exists_splitGroup? {inner : Nat} (h : Balances (inner + (depth + 1)) run) :
    exists cut, splitGroup? inner run = some cut ∧ Balances depth cut.rest := by
  induction run generalizing inner with
  | nil => exact absurd (balances_nil.mp h) (Nat.ne_of_gt (Nat.lt_add_left inner depth.succ_pos))
  | cons token rest ih =>
      rcases balances_cons.mp h with ⟨_, hrest⟩
      by_cases hends : token.isCloser = true ∧ inner = 0
      · rcases hends with ⟨hcloser, rfl⟩
        rw [depthAfter_closer hcloser, Nat.zero_add] at hrest
        exact ⟨⟨[], token, rest⟩, splitGroup?_closer hcloser rest, hrest⟩
      · have hinside : token.isCloser = true -> inner ≠ 0 := fun hcloser hinner =>
          hends ⟨hcloser, hinner⟩
        rw [depthAfter_add hinside] at hrest
        rcases ih hrest with ⟨cut, hcut, hafter⟩
        refine ⟨{ cut with content := token :: cut.content }, ?_, hafter⟩
        rw [splitGroup?_inside hinside, hcut]
        rfl

end Run
end Stylesheet
