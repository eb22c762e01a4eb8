import Stylesheet.Proofs.Cursor.Sheet
import Stylesheet.Proofs.Token.Balanced
import Stylesheet.Proofs.Token.Stops

/-!
# Groups are never cut

Each of the three scanners of runs has a count of its own.  The splitter counts from the first
token of its run, the scanner that ends a run from the token at which it is started, and both let a
closer without an opener pass; the scanner of groups counts from the opener of its group.  Where
brackets are missing the three counts differ.  Main statement: a group that is closed is a whole for
all three.  It lies within one part of the run and is closed at the same place there, and no run
that begins in front of it ends within it.  The parser by index, which keeps its counts as it goes,
comes to the same indices.
-/

namespace Stylesheet
namespace Run

/-! ## Scanning at an index -/

/-- The index of the closer of the group whose opener stands at an index. -/
def closeIndex? (tokens : List Token) (i : Nat) : Option Nat :=
  (splitGroup? 0 (tokens.drop (i + 1))).map fun cut => i + 1 + cut.content.length

/-- The index of the token in front of which a run ends that begins at an index. -/
def stopIndex (stops : TokenKind -> Bool) (tokens : List Token) (start : Nat) : Nat :=
  start + (takeUntil stops 0 (tokens.drop start)).1.length

/-- The index at which a part begins: behind every part before it stands a separator. -/
def partStart : List (List Token) -> Nat -> Nat
  | part :: parts, n + 1 => part.length + 1 + partStart parts n
  | _, _ => 0

@[simp] theorem partStart_zero (parts : List (List Token)) : partStart parts 0 = 0 := by
  cases parts <;> rfl

@[simp] theorem partStart_cons_succ (part : List Token) (parts : List (List Token)) (n : Nat) :
    partStart (part :: parts) (n + 1) = part.length + 1 + partStart parts n :=
  rfl

/-- Parts one after another, with a separator between each two of them. -/
def joinParts : List (List Token) -> List Token -> List Token
  | part :: parts, mark :: marks => part ++ mark :: joinParts parts marks
  | parts, _ => parts.flatten

/--
The part that holds a group from the opener at `i` to the closer at `j`: it is what the run has from
the start of the part on, and in it the group is closed at the same place.
-/
structure HoldsGroup (tokens : List Token) (parts : List (List Token)) (i j n : Nat)
    (part : List Token) : Prop where
  nth : parts[n]? = some part
  covers : part <+: tokens.drop (partStart parts n)
  begins : partStart parts n ≤ i
  ends : j < partStart parts n + part.length
  closes : closeIndex? part (i - partStart parts n) = some (j - partStart parts n)

/-! ## Closed groups -/

section Group

variable {separates : TokenKind -> Bool} {content : List Token} {opener closer : Token}

theorem closeIndex?_append (hcontent : Closes 0 content) (hcloser : closer.isCloser = true)
    (front back : List Token) :
    closeIndex? (front ++ (opener :: content ++ [closer]) ++ back) front.length =
      some (front.length + 1 + content.length) := by
  have hdrop : (front ++ (opener :: content ++ [closer]) ++ back).drop (front.length + 1) =
      content ++ closer :: back := by
    rw [List.append_assoc, List.drop_length_add_append]
    simp
  rw [closeIndex?, hdrop, hcontent.splitGroup? hcloser]
  rfl

/-- Where a closer is found, the tokens hold a closed group that ends with it. -/
theorem exists_group_of_closeIndex? {tokens : List Token} {i j : Nat}
    (heof : forall token, token ∈ tokens.dropLast -> token.kind ≠ .eof)
    (hopener : tokens[i]? = some opener) (h : closeIndex? tokens i = some j) :
    exists front content closer back,
      tokens = front ++ (opener :: content ++ [closer]) ++ back ∧ front.length = i ∧
        i + 1 + content.length = j ∧ Closes 0 content ∧ closer.isCloser = true := by
  rcases Option.map_eq_some_iff.mp h with ⟨cut, hcut, hj⟩
  rcases splitGroup?_eq_some_iff.mp hcut with ⟨hrest, hcloser, hcontent⟩
  rcases List.getElem?_eq_some_iff.mp hopener with ⟨hi, hget⟩
  have htokens : tokens = tokens.take i ++ opener :: cut.content ++ cut.closer :: cut.rest := by
    rw [List.append_assoc, List.cons_append, ← hrest, ← hget, List.getElem_cons_drop,
      List.take_append_drop]
  have hinside : forall token, token ∈ cut.content -> token.kind ≠ .eof := by
    intro token hmem
    apply heof
    rw [htokens, List.dropLast_append_of_ne_nil (List.cons_ne_nil _ _)]
    exact List.mem_append_left _ (List.mem_append_right _ (List.mem_cons_of_mem _ hmem))
  refine ⟨tokens.take i, cut.content, cut.closer, cut.rest, ?_,
    List.length_take_of_le (Nat.le_of_lt hi), hj, closes_iff.mpr ⟨hinside, hcontent⟩, hcloser⟩
  rw [← List.append_assoc, List.append_assoc _ [_], List.singleton_append]
  exact htokens

/-- However many groups are open around a closed group, no separator splits it. -/
theorem isWhole_group (hcontent : Closes 0 content) (hopener : opener.isOpener = true)
    (hcloser : closer.isCloser = true) (depth : Nat) :
    IsWhole separates depth (opener :: content ++ [closer]) := by
  rw [List.cons_append, isWhole_cons, depthAfter_opener hopener]
  constructor
  · intro hseparator
    rw [hseparator.right.left] at hopener
    cases hopener
  · exact (uncut_behind_opener hcontent hcloser depth).isWhole

/-- A run that begins in front of a closed group ends in front of it or behind it. -/
theorem length_takeUntil_group (stops : TokenKind -> Bool) (hcontent : Closes 0 content)
    (hopener : opener.isOpener = true) (hcloser : closer.isCloser = true) (depth : Nat)
    (front back : List Token) :
    let run := (takeUntil stops depth (front ++ (opener :: content ++ [closer]) ++ back)).1
    run.length ≤ front.length ∨ front.length + 1 + content.length < run.length := by
  induction front generalizing depth with
  | nil =>
      rw [List.nil_append, List.cons_append, List.cons_append, takeUntil]
      split
      · exact Or.inl (Nat.le_refl 0)
      · have hgroup : Uncut stops (depth + 1) (content ++ [closer]) :=
          uncut_behind_opener hcontent hcloser depth
        rw [depthAfter_opener hopener, hgroup.takeUntil_append]
        apply Or.inr
        simp only [List.length_cons, List.length_append, List.length_nil]
        omega
  | cons token front ih =>
      rw [List.cons_append, List.cons_append, takeUntil]
      split
      · exact Or.inl (Nat.zero_le _)
      · have hrest := ih (depthAfter depth token)
        simp only [List.length_cons] at hrest ⊢
        omega

end Group

/-! ## Parts -/

section Parts

variable {separates : TokenKind -> Bool} {run : List Token} {parts : List (List Token)}

/-- What no separator splits lies within one part. -/
theorem exists_part_of_isWhole {group : List Token}
    (hgroup : forall depth, IsWhole separates depth group) (depth : Nat)
    (front back : List Token) :
    let parts := splitTopLevel separates depth (front ++ group ++ back)
    exists n lead trail, parts[n]? = some (lead ++ group ++ trail) ∧
      partStart parts n + lead.length = front.length := by
  induction front generalizing depth with
  | nil =>
      cases hback : splitTopLevel separates (depthBehind depth group) back with
      | nil => exact absurd hback (splitTopLevel_ne_nil _ _ _)
      | cons trail parts =>
          rw [List.nil_append, (hgroup depth).splitTopLevel_append hback]
          exact ⟨0, [], trail, rfl, rfl⟩
  | cons token front ih =>
      rw [List.cons_append, List.cons_append, splitTopLevel]
      split
      · rcases ih 0 with ⟨n, lead, trail, hpart, hlength⟩
        refine ⟨n + 1, lead, trail, hpart, ?_⟩
        rw [partStart_cons_succ, List.length_nil, List.length_cons, ← hlength]
        omega
      · rcases ih (depthAfter depth token) with ⟨n, lead, trail, hpart, hlength⟩
        cases hparts : splitTopLevel separates (depthAfter depth token) (front ++ group ++ back) with
        | nil => exact absurd hparts (splitTopLevel_ne_nil _ _ _)
        | cons part parts =>
            rw [hparts] at hpart hlength
            cases n with
            | zero =>
                -- The token stands in front of the part that holds the group.
                cases hpart
                refine ⟨0, token :: lead, trail, rfl, ?_⟩
                simp only [partStart_zero, List.length_cons] at hlength ⊢
                omega
            | succ n =>
                refine ⟨n + 1, lead, trail, hpart, ?_⟩
                simp only [partStart_cons_succ, List.length_cons] at hlength ⊢
                omega

theorem AreSeparated.isWhole (h : AreSeparated separates run parts) :
    forall part, part ∈ parts -> IsWhole separates 0 part := by
  induction h with
  | last hpart => exact List.forall_mem_singleton.mpr hpart
  | cons hpart _ _ _ ih => exact List.forall_mem_cons.mpr ⟨hpart, ih⟩

/-- The parts and the separators between them are the run. -/
theorem AreSeparated.exists_joinParts (h : AreSeparated separates run parts) :
    exists marks, marks.length + 1 = parts.length ∧
      (forall mark, mark ∈ marks -> IsSeparator separates mark) ∧ joinParts parts marks = run := by
  induction h with
  | @last part _ => exact ⟨[], rfl, by simp, List.append_nil part⟩
  | @cons _ _ mark _ _ _ hmark _ ih =>
      rcases ih with ⟨marks, hlength, hmarks, hjoin⟩
      refine ⟨mark :: marks, congrArg (· + 1) hlength, List.forall_mem_cons.mpr ⟨hmark, hmarks⟩, ?_⟩
      rw [joinParts, hjoin]

/-- Each part is what the run has from the start of the part on. -/
theorem AreSeparated.prefix_drop (h : AreSeparated separates run parts) {n : Nat}
    {part : List Token} (hpart : parts[n]? = some part) :
    part <+: run.drop (partStart parts n) := by
  induction h generalizing n with
  | last =>
      cases n with
      | zero =>
          cases hpart
          exact List.prefix_refl _
      | succ n => cases hpart
  | cons _ _ _ _ ih =>
      cases n with
      | zero =>
          cases hpart
          exact List.prefix_append _ _
      | succ n =>
          rw [partStart_cons_succ, Nat.add_assoc, List.drop_length_add_append, Nat.add_comm 1,
            List.drop_succ_cons]
          exact ih hpart

end Parts

/-! ## Agreement -/

section Agreement

variable {tokens : List Token} {i j : Nat} {opener : Token}

/-- A closed group lies within one part, and is closed at the same place there. -/
theorem exists_holdsGroup (separates : TokenKind -> Bool)
    (heof : forall token, token ∈ tokens.dropLast -> token.kind ≠ .eof)
    (hget : tokens[i]? = some opener) (hopener : opener.isOpener = true)
    (hclose : closeIndex? tokens i = some j) :
    exists n part, HoldsGroup tokens (splitTopLevel separates 0 tokens) i j n part := by
  rcases exists_group_of_closeIndex? heof hget hclose with
    ⟨front, content, closer, back, rfl, hfront, hj, hcontent, hcloser⟩
  have hwhole : forall depth, IsWhole separates depth (opener :: content ++ [closer]) :=
    isWhole_group hcontent hopener hcloser
  rcases exists_part_of_isWhole hwhole 0 front back with ⟨n, lead, trail, hpart, hlength⟩
  generalize hparts : splitTopLevel separates 0 (front ++ (opener :: content ++ [closer]) ++ back) =
    parts at hpart hlength ⊢
  have hclosed := @closeIndex?_append _ opener _ hcontent hcloser lead trail
  have hi : i - partStart parts n = lead.length := by omega
  have hj : j - partStart parts n = lead.length + 1 + content.length := by omega
  refine ⟨n, lead ++ (opener :: content ++ [closer]) ++ trail, ?_⟩
  constructor
  · exact hpart
  · exact (splitTopLevel_eq_iff.mp hparts).prefix_drop hpart
  · omega
  · simp only [List.length_append, List.length_cons, List.length_nil]
    omega
  · rw [hi, hj, hclosed]

/-- No run that begins in front of a closed group ends within it. -/
theorem stopIndex_outside (stops : TokenKind -> Bool)
    (heof : forall token, token ∈ tokens.dropLast -> token.kind ≠ .eof)
    (hget : tokens[i]? = some opener) (hopener : opener.isOpener = true)
    (hclose : closeIndex? tokens i = some j) {start : Nat} (hstart : start ≤ i) :
    stopIndex stops tokens start ≤ i ∨ j < stopIndex stops tokens start := by
  rcases exists_group_of_closeIndex? heof hget hclose with
    ⟨front, content, closer, back, rfl, rfl, hj, hcontent, hcloser⟩
  have hlength := length_takeUntil_group stops hcontent hopener hcloser 0 (front.drop start) back
  rw [stopIndex, List.append_assoc, List.drop_append_of_le_length hstart, ← List.append_assoc]
  simp only [List.length_drop] at hlength
  omega

/--
The three scanners agree on every group that is closed, whatever brackets are missing around it:
one part of the run holds it, and no run that begins in front of it ends within it.  The parts,
with the separators between them, are the run, and no part has a separator outside of its groups.
-/
theorem scanners_agree (separates : TokenKind -> Bool)
    (heof : forall token, token ∈ tokens.dropLast -> token.kind ≠ .eof) :
    let parts := splitTopLevel separates 0 tokens
    (forall i j opener, tokens[i]? = some opener -> opener.isOpener = true ->
      closeIndex? tokens i = some j ->
        (exists n part, HoldsGroup tokens parts i j n part) ∧
          forall stops start, start ≤ i ->
            stopIndex stops tokens start ≤ i ∨ j < stopIndex stops tokens start) ∧
      (exists marks, marks.length + 1 = parts.length ∧
        (forall mark, mark ∈ marks -> IsSeparator separates mark) ∧
          joinParts parts marks = tokens) ∧
      forall part, part ∈ parts -> IsWhole separates 0 part := by
  intro parts
  have hseparated : AreSeparated separates tokens parts := splitTopLevel_eq_iff.mp rfl
  refine ⟨?_, hseparated.exists_joinParts, hseparated.isWhole⟩
  intro i j opener hget hopener hclose
  constructor
  · exact exists_holdsGroup separates heof hget hopener hclose
  · intro stops start hstart
    exact stopIndex_outside stops heof hget hopener hclose hstart

/--
A closer that closes nothing, an opener that is never closed, and behind them a group that a bracket
of another shape closes: it is not cut at its comma, and no run ends in its middle.
-/
theorem scanners_agree_missing_brackets :
    let tokens : List Token := [⟨.ident "a", "a", ⟨1, 1, 0⟩⟩, ⟨.rightParen, ")", ⟨1, 2, 1⟩⟩,
      ⟨.comma, ",", ⟨1, 3, 2⟩⟩, ⟨.leftParen, "(", ⟨1, 4, 3⟩⟩, ⟨.function "f", "f(", ⟨1, 5, 4⟩⟩,
      ⟨.ident "b", "b", ⟨1, 7, 6⟩⟩, ⟨.comma, ",", ⟨1, 8, 7⟩⟩, ⟨.ident "c", "c", ⟨1, 9, 8⟩⟩,
      ⟨.rightBracket, "]", ⟨1, 10, 9⟩⟩, ⟨.eof, "", ⟨1, 11, 10⟩⟩]
    let parts := splitTopLevel (· == .comma) 0 tokens
    tokenize "a),(f(b,c]" = .ok tokens ∧
      (forall token, token ∈ tokens.dropLast -> token.kind ≠ .eof) ∧
      closeIndex? tokens 3 = none ∧ closeIndex? tokens 4 = some 8 ∧
      parts = [tokens.take 2, tokens.drop 3] ∧
      (exists n part, HoldsGroup tokens parts 4 8 n part) ∧
      (forall stops start, start ≤ 4 ->
        stopIndex stops tokens start ≤ 4 ∨ 8 < stopIndex stops tokens start) ∧
      exists marks, marks.length + 1 = parts.length ∧ joinParts parts marks = tokens := by
  intro tokens parts
  have htokens : tokenize "a),(f(b,c]" = .ok tokens := by decide +kernel
  have heof : forall token, token ∈ tokens.dropLast -> token.kind ≠ .eof := by decide
  have hclose : closeIndex? tokens 4 = some 8 := rfl
  rcases scanners_agree (· == .comma) heof with ⟨hgroups, ⟨marks, hlength, _, hjoin⟩, _⟩
  rcases hgroups 4 8 ⟨.function "f", "f(", ⟨1, 5, 4⟩⟩ rfl rfl hclose with ⟨hholds, hstops⟩
  exact ⟨htokens, heof, rfl, hclose, rfl, hholds, hstops, marks, hlength, hjoin⟩

end Agreement

end Run

/-! ## The scanners by index -/

namespace Cursor

/-- A count that begins at an opener comes to the closer of its group. -/
theorem matchingClose?_eq {tokens : List Token} {i : Nat} {opener : Token}
    (hget : tokens[i]? = some opener) (hopener : opener.isOpener = true) :
    matchingClose? tokens i = Run.closeIndex? tokens i := by
  rcases List.getElem?_eq_some_iff.mp hget with ⟨hi, hopens⟩
  have hdrop : tokens.drop i = opener :: tokens.drop (i + 1) := by
    rw [← hopens, List.getElem_cons_drop]
  rw [matchingClose?, hdrop, closeFrom?, if_pos hopener, closeFrom?_succ, Run.closeIndex?]

/-- A cursor that is moved over a run comes to the index at which the run ends. -/
theorem skipUntil_eq (tokens : List Token) (stops : TokenKind -> Bool) (start : Nat) :
    skipUntil tokens stops 0 start = .ok (Run.stopIndex stops tokens start) := by
  by_cases hstart : start ≤ tokens.length
  · have hlength : (tokens.take start).length = start := List.length_take_of_le hstart
    have hskip := skipUntil_append (tokens.take start) stops 0 (tokens.drop start)
    rw [List.take_append_drop, List.length_append, hlength] at hskip
    exact hskip
  · have hpast : tokens.length ≤ start := Nat.le_of_not_le hstart
    have hpeek : peek tokens start = ⟨.eof, "", .start⟩ := by
      rw [peek, List.getElem?_eq_none hpast]
      rfl
    unfold skipUntil
    rw [Run.stopIndex, List.drop_eq_nil_of_le hpast]
    simp only [hpeek, decide_true, Bool.true_or, if_true, pure_eq_ok]
    rfl

end Cursor
end Stylesheet
