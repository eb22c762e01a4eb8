import Stylesheet.Proofs.AnPlusB.Spaces
import Stylesheet.Proofs.Selector.Derivation
import Stylesheet.Token.Stream

/-!
# Positions as arguments

A pseudo-class that asks for a position takes one of two words or the An+B notation, and selectors
behind the word `of`.  The reader removes every blank before it looks at the position, so that it
also takes what only becomes a position then.  Main statement: an argument is read as a position
exactly when it is one without its blanks, it is one as it stands exactly when its blanks are
spaces beside the sign of the offset, and any other argument keeps its text.
-/

namespace Stylesheet
namespace Selector

open AnPlusB Character Lexical Node

/-! ## Positions -/

/-- Whether a text is one of the two words that name positions. -/
def isParity (text : List Char) : Bool :=
  sameWord (String.ofList text) "odd" || sameWord (String.ofList text) "even"

/-- A text without blanks names positions. -/
inductive IsPosition (text : List Char) : Construct Node -> Prop
  | parity (htext : isParity text = true) : IsPosition text (.identifier (String.ofList text))
  | formula {a b : Option String} (htext : text ∈ anPlusB)
      (hread : AnPlusB.parse? (String.ofList text) = some ⟨a, b⟩) :
      IsPosition text (.anPlusB a b)

/-- A text names positions as it stands, with the spaces that the notation allows. -/
inductive IsSpacedPosition (text : List Char) : Construct Node -> Prop
  | parity (htext : isParity text = true) :
      IsSpacedPosition text (.identifier (String.ofList text))
  | formula {a b : Option String} (htext : text ∈ spacedAnPlusB) :
      IsSpacedPosition text (.anPlusB a b)

section Positions

variable {text : List Char} {c : Char}

theorem map_toLower_of_isParity (h : isParity text = true) :
    text.map Char.toLower = ['o', 'd', 'd'] ∨ text.map Char.toLower = ['e', 'v', 'e', 'n'] := by
  rw [isParity, Bool.or_eq_true, sameWord_iff, sameWord_iff, String.toList_ofList] at h
  exact h.imp (fun h => h.trans (by decide)) fun h => h.trans (by decide)

theorem not_isSign_of_isParity (h : isParity text = true) (hc : c ∈ text) : isSign c = false := by
  rw [← Bool.not_eq_true]
  intro hsign
  have hmem : c.toLower ∈ text.map Char.toLower := List.mem_map_of_mem hc
  simp only [isSign, Bool.or_eq_true, beq_iff_eq] at hsign
  rcases map_toLower_of_isParity h with hodd | heven
  · rw [hodd] at hmem
    rcases hsign with rfl | rfl <;> exact absurd hmem (by decide)
  · rw [heven] at hmem
    rcases hsign with rfl | rfl <;> exact absurd hmem (by decide)

/-- What a text of the notation begins with. -/
theorem exists_cons_of_mem_anPlusB (h : text ∈ anPlusB) :
    exists c rest, text = c :: rest ∧
      (isSign c = true ∨ isVariable c = true ∨ isDigit c = true) := by
  rcases h with hsteps | hinteger
  · rcases Language.mem_mul.mp hsteps with ⟨places, hplaces, behind, hbehind, rfl⟩
    rcases mem_one_mul_iff.mp hbehind with ⟨letter, rest, rfl, hletter, _⟩
    cases places with
    | nil => exact ⟨letter, rest, rfl, Or.inr (Or.inl hletter)⟩
    | cons c places =>
        have hc := isSign_or_isDigit_of_mem_stride hplaces List.mem_cons_self
        exact ⟨c, places ++ letter :: rest, rfl, hc.imp_right Or.inr⟩
  · cases text with
    | nil => exact absurd (isInteger_iff.mpr hinteger) (by decide)
    | cons c rest =>
        have hstride := mem_stride_of_mem_integer hinteger
        have hc := isSign_or_isDigit_of_mem_stride hstride List.mem_cons_self
        exact ⟨c, rest, rfl, hc.imp_right Or.inr⟩

theorem toLower_of_isDigit (h : isDigit c = true) : c.toLower = c := by
  simp only [isDigit, Bool.and_eq_true, decide_eq_true_eq] at h
  unfold Char.toLower
  split
  · rename_i hupper
    have hle : 'A' ≤ '9' := Char.le_trans hupper.1 h.2
    exact absurd hle (by decide)
  · rfl

/-- Neither word is of the notation. -/
theorem not_mem_anPlusB_of_isParity (h : isParity text = true) : text ∉ anPlusB := by
  intro hnotation
  rcases exists_cons_of_mem_anPlusB hnotation with ⟨c, rest, rfl, hc⟩
  have hfirst : c.toLower = 'o' ∨ c.toLower = 'e' :=
    (map_toLower_of_isParity h).imp (fun h => (List.cons.inj h).1) fun h => (List.cons.inj h).1
  rcases hc with hsign | hvariable | hdigit
  · rw [not_isSign_of_isParity h List.mem_cons_self] at hsign
    cases hsign
  · simp only [isVariable, Bool.or_eq_true, beq_iff_eq] at hvariable
    rcases hvariable with rfl | rfl <;> exact absurd hfirst (by decide)
  · rw [toLower_of_isDigit hdigit] at hfirst
    rcases hfirst with rfl | rfl <;> cases hdigit

end Positions

theorem IsPosition.of_read {text : List Char} {a b : Option String}
    (h : AnPlusB.parse? (String.ofList text) = some ⟨a, b⟩) : IsPosition text (.anPlusB a b) :=
  IsPosition.formula (isSome_parse?_iff text |>.mp (Option.isSome_of_eq_some h)) h

theorem position?_eq_some_iff {run : List Token} {construct : Construct Node} :
    position? run = some construct <-> IsPosition (squeezed (Run.text run).toList) construct := by
  unfold position?
  change (if isParity (squeezed (Run.text run).toList) = true then
    some (.identifier (String.ofList (squeezed (Run.text run).toList)))
    else (AnPlusB.parse? (String.ofList (squeezed (Run.text run).toList))).map fun parts =>
      .anPlusB parts.a parts.b) = some construct <-> _
  generalize squeezed (Run.text run).toList = text
  constructor
  · intro h
    split at h
    · cases h
      exact IsPosition.parity ‹_›
    · rcases Option.map_eq_some_iff.mp h with ⟨⟨a, b⟩, hread, rfl⟩
      exact IsPosition.of_read hread
  · intro h
    cases h with
    | parity htext => rw [if_pos htext]
    | formula htext hread =>
        rw [if_neg fun hparity => not_mem_anPlusB_of_isParity hparity htext, hread]
        rfl

/-- A position is one as it stands exactly when its blanks are spaces beside the sign. -/
theorem isSpacedPosition_iff {text : List Char} {construct : Construct Node}
    (h : IsPosition (squeezed text) construct) :
    IsSpacedPosition text construct <->
      forall front c back, text = front ++ c :: back -> isBlank c = true ->
        IsBesideSign front c back := by
  cases h with
  | parity htext =>
      constructor
      · intro hspaced
        generalize hword : String.ofList (squeezed text) = word at hspaced
        cases hspaced with
        | parity _ =>
            rintro front c back rfl hc
            have hmem : c ∈ squeezed (front ++ c :: back) := by
              rw [String.ofList_inj.mp hword]
              simp
            have hblank := (List.mem_filter.mp hmem).right
            rw [hc] at hblank
            cases hblank
      · intro hblanks
        have hnone : forall c, c ∈ text -> isBlank c = false := by
          intro c hc
          rw [← Bool.not_eq_true]
          intro hblank
          rcases List.append_of_mem hc with ⟨front, back, rfl⟩
          rcases (hblanks front c back rfl hblank).exists_sign with ⟨sign, hmem, hsign⟩
          have hsqueezed : sign ∈ squeezed (front ++ c :: back) := by
            rw [squeezed_append, squeezed_cons_of_isBlank hblank]
            exact List.mem_append.mpr hmem
          rw [not_isSign_of_isParity htext hsqueezed] at hsign
          cases hsign
        rw [squeezed_eq_self hnone] at htext ⊢
        exact IsSpacedPosition.parity htext
  | formula htext hread =>
      constructor
      · intro hspaced
        cases hspaced with
        | formula hspaced => exact (mem_spacedAnPlusB_iff.mp hspaced).right
      · intro hblanks
        exact IsSpacedPosition.formula (mem_spacedAnPlusB_iff.mpr ⟨htext, hblanks⟩)

/-! ## The word between a position and its selectors -/

/-- Whether a run ends in whitespace. -/
def endsInSpace (run : List Token) : Bool :=
  run.getLast?.any fun token => token.kind = .whitespace

/-- Nowhere in a run does the word stand directly behind whitespace. -/
def HasNoOf (run : List Token) : Prop :=
  forall front word back, run = front ++ word :: back -> isOf word = true ->
    endsInSpace front = false

/-- A run is cut at the first place where the word stands directly behind whitespace. -/
structure IsCutAtOf (run before after : List Token) : Prop where
  exists_word : exists word, isOf word = true ∧ run = before ++ word :: after
  space : endsInSpace before = true
  first : HasNoOf before

section Of

variable {space word : Token} {run rest before after : List Token}

theorem endsInSpace_cons_cons (first second : Token) (rest : List Token) :
    endsInSpace (first :: second :: rest) = endsInSpace (second :: rest) := by
  rw [endsInSpace, List.getLast?_cons_cons]
  rfl

theorem hasNoOf_cons : HasNoOf (space :: word :: rest) <->
    ¬ (space.kind = .whitespace && isOf word) = true ∧ HasNoOf (word :: rest) := by
  rw [Bool.and_eq_true]
  constructor
  · intro h
    constructor
    · rintro ⟨hspace, hword⟩
      have hends : decide (space.kind = .whitespace) = false := h [space] word rest rfl hword
      rw [hspace] at hends
      cases hends
    · intro front other back heq hother
      cases front with
      | nil => rfl
      | cons first front =>
          rw [← endsInSpace_cons_cons space first front]
          exact h (space :: first :: front) other back (by rw [heq]; rfl) hother
  · rintro ⟨hnot, hrest⟩ front other back heq hother
    rcases front with _ | ⟨first, _ | ⟨second, front⟩⟩
    · rfl
    · cases heq
      exact Bool.eq_false_iff.mpr fun hspace => hnot ⟨hspace, hother⟩
    · rw [endsInSpace_cons_cons]
      exact hrest (second :: front) other back (List.cons.inj heq).2 hother

theorem splitOf?_eq_none_iff : splitOf? run = none <-> HasNoOf run := by
  fun_induction splitOf? run with
  | case1 space word rest hcut =>
      refine iff_of_false (Option.some_ne_none _) fun h => (hasNoOf_cons.mp h).left hcut
  | case2 space word rest hcut ih =>
      rw [Option.map_eq_none_iff, ih, hasNoOf_cons, and_iff_right hcut]
  | case3 run hshort =>
      refine iff_of_true rfl ?_
      rintro front word back rfl hword
      rcases front with _ | ⟨first, _ | ⟨second, front⟩⟩
      · rfl
      · exact absurd rfl (hshort first word back)
      · exact absurd rfl (hshort first second (front ++ word :: back))

theorem IsCutAtOf.exists_cons (h : IsCutAtOf (space :: rest) before after) :
    exists front, before = space :: front := by
  rcases h.exists_word with ⟨word, hword, heq⟩
  cases before with
  | nil => exact absurd h.space Bool.false_ne_true
  | cons first front => exact ⟨front, by rw [(List.cons.inj heq).1]⟩

theorem splitOf?_eq_some_iff :
    splitOf? run = some (before, after) <-> IsCutAtOf run before after := by
  fun_induction splitOf? run generalizing before after with
  | case1 space word rest hcut =>
      rw [Option.some.injEq, Prod.mk.injEq]
      constructor
      · rintro ⟨rfl, rfl⟩
        rw [Bool.and_eq_true] at hcut
        refine ⟨⟨word, hcut.2, rfl⟩, hcut.1, ?_⟩
        exact splitOf?_eq_none_iff.mp rfl
      · intro h
        rcases h.exists_cons with ⟨front, rfl⟩
        rcases h.exists_word with ⟨word', hword, heq⟩
        rcases List.cons.inj heq with ⟨_, hrest⟩
        cases front with
        | nil =>
            cases hrest
            exact ⟨rfl, rfl⟩
        | cons second front =>
            rw [← (List.cons.inj hrest).1] at h
            exact absurd hcut (hasNoOf_cons.mp h.first).left
  | case2 space word rest hcut ih =>
      rw [Option.map_eq_some_iff]
      constructor
      · rintro ⟨⟨front, back⟩, hsplit, heq⟩
        cases heq
        have hcutAt := ih.mp hsplit
        rcases hcutAt.exists_cons with ⟨front, rfl⟩
        rcases hcutAt.exists_word with ⟨word', hword, hrest⟩
        refine ⟨⟨word', hword, by rw [hrest]; rfl⟩, ?_, hasNoOf_cons.mpr ⟨hcut, hcutAt.first⟩⟩
        rw [endsInSpace_cons_cons]
        exact hcutAt.space
      · intro h
        rcases h.exists_cons with ⟨front, rfl⟩
        rcases h.exists_word with ⟨word', hword, heq⟩
        rcases List.cons.inj heq with ⟨_, hrest⟩
        have hspace := h.space
        cases front with
        | nil =>
            cases hrest
            exact absurd (Bool.and_eq_true _ _ ▸ ⟨hspace, hword⟩) hcut
        | cons second front =>
            have hfirst := h.first
            rw [endsInSpace_cons_cons] at hspace
            rw [hasNoOf_cons] at hfirst
            exact ⟨(second :: front, after),
              ih.mpr ⟨⟨word', hword, hrest⟩, hspace, hfirst.right⟩, rfl⟩
  | case3 run hshort =>
      refine iff_of_false (Option.some_ne_none _).symm ?_
      rintro ⟨⟨word, hword, rfl⟩, hspace, _⟩
      rcases before with _ | ⟨first, _ | ⟨second, front⟩⟩
      · cases hspace
      · exact absurd rfl (hshort first word after)
      · exact absurd rfl (hshort first second (front ++ word :: after))

end Of

/-! ## Arguments -/

/-- The part of an argument that names positions, and the selectors that it counts among. -/
inductive IsCounted (source : SourceName) (run : List Token) : List Token -> Option Node -> Prop
  | all (hof : HasNoOf run) : IsCounted source run run none
  | among {before after : List Token} {selectors : Node} (hcut : IsCutAtOf run before after)
      (hlist : list? source after = some selectors) :
      IsCounted source run (Run.trim before) (some selectors)

section Arguments

variable {source : SourceName} {name : String} {run formula : List Token} {selectors : Option Node}

theorem not_takesSelectors_of_takesPosition (h : takesPosition name = true) :
    takesSelectors name = false := by
  rw [takesPosition, List.contains_iff_mem] at h
  simp only [List.mem_cons, List.not_mem_nil, or_false] at h
  unfold takesSelectors
  rcases h with h | h | h | h | h | h <;> rw [h] <;> decide

theorem argument_of_isCounted (htakes : takesPosition name = true)
    (h : IsCounted source run formula selectors) :
    argument source name run = (nth? source run formula selectors).getD (rawRun source run) := by
  rw [argument_eq, not_takesSelectors_of_takesPosition htakes, if_neg Bool.false_ne_true,
    if_pos htakes]
  cases h with
  | all hof => rw [splitOf?_eq_none_iff.mpr hof]
  | among hcut hlist =>
      simp only [splitOf?_eq_some_iff.mpr hcut, hlist]
      rfl

theorem argument_of_not_isCounted (htakes : takesPosition name = true)
    (h : forall formula selectors, ¬ IsCounted source run formula selectors) :
    argument source name run = rawRun source run := by
  rw [argument_eq, not_takesSelectors_of_takesPosition htakes, if_neg Bool.false_ne_true,
    if_pos htakes]
  cases hof : splitOf? run with
  | none => exact absurd (IsCounted.all (splitOf?_eq_none_iff.mp hof)) (h run none)
  | some cut =>
      rcases cut with ⟨before, after⟩
      cases hlist : list? source after with
      | none => simp only [hlist]; rfl
      | some selectors =>
          exact absurd (IsCounted.among (splitOf?_eq_some_iff.mp hof) hlist) (h _ _)

theorem argument_eq_nth_iff (htakes : takesPosition name = true)
    (h : IsCounted source run formula selectors) (construct : Construct Node) :
    argument source name run =
        spanning source run (.nth (spanning source formula construct) selectors) <->
      IsPosition (squeezed (Run.text formula).toList) construct := by
  rw [argument_of_isCounted htakes h, ← position?_eq_some_iff, nth?]
  cases position? formula with
  | none =>
      refine iff_of_false ?_ (Option.some_ne_none _).symm
      intro heq
      cases congrArg Node.construct heq
  | some other =>
      rw [Option.map_some, Option.getD_some, Option.some.injEq]
      constructor
      · intro heq
        cases congrArg Node.construct heq
        rfl
      · rintro rfl
        rfl

end Arguments

/--
The argument of a pseudo-class that asks for a position is one exactly when the text that names
the positions is, without its blanks, one of two words or of the An+B notation.  As it stands that
text is such a word or of the notation with spaces exactly when its blanks are spaces beside the
sign of the offset.  Every other argument keeps its text.
-/
theorem argument_position (source : SourceName) {name : String}
    (htakes : takesPosition name = true) (run : List Token) :
    (forall formula selectors, IsCounted source run formula selectors ->
      forall construct,
        (argument source name run =
            spanning source run (.nth (spanning source formula construct) selectors) <->
          IsPosition (squeezed (Run.text formula).toList) construct) ∧
        (argument source name run =
            spanning source run (.nth (spanning source formula construct) selectors) ->
          (IsSpacedPosition (Run.text formula).toList construct <->
            forall front c back, (Run.text formula).toList = front ++ c :: back ->
              isBlank c = true -> IsBesideSign front c back))) ∧
      ((forall formula selectors construct, IsCounted source run formula selectors ->
          ¬ IsPosition (squeezed (Run.text formula).toList) construct) ->
        argument source name run = rawRun source run) := by
  constructor
  · intro formula selectors hcounted construct
    have hiff := argument_eq_nth_iff htakes hcounted construct
    exact ⟨hiff, fun h => isSpacedPosition_iff (hiff.mp h)⟩
  · intro hnone
    by_cases hcounted : exists formula selectors, IsCounted source run formula selectors
    · rcases hcounted with ⟨formula, selectors, hcounted⟩
      rw [argument_of_isCounted htakes hcounted, nth?]
      cases hposition : position? formula with
      | none => rfl
      | some construct =>
          exact absurd (position?_eq_some_iff.mp hposition)
            (hnone formula selectors construct hcounted)
    · exact argument_of_not_isCounted htakes fun formula selectors h =>
        hcounted ⟨formula, selectors, h⟩

/-- Spaces on both sides of the sign of the offset. -/
theorem argument_position_spaced_sign :
    let run : List Token := [⟨.dimension "2" "n", "2n", ⟨1, 1, 0⟩⟩, ⟨.whitespace, " ", ⟨1, 3, 2⟩⟩,
      ⟨.delim '+', "+", ⟨1, 4, 3⟩⟩, ⟨.whitespace, " ", ⟨1, 5, 4⟩⟩, ⟨.number "1", "1", ⟨1, 6, 5⟩⟩]
    takesPosition "nth-child" = true ∧ IsCounted none run run none ∧
      argument none "nth-child" run =
        ofConstruct (.nth (ofConstruct (.anPlusB (some "2") (some "1"))) none) ∧
      (IsSpacedPosition "2n + 1".toList (.anPlusB (some "2") (some "1")) <->
        forall front c back, "2n + 1".toList = front ++ c :: back -> isBlank c = true ->
          IsBesideSign front c back) := by
  intro run
  have htakes : takesPosition "nth-child" = true := by decide +kernel
  have hcounted : IsCounted none run run none := IsCounted.all (splitOf?_eq_none_iff.mp rfl)
  have hread : AnPlusB.parse? (String.ofList (squeezed (Run.text run).toList)) =
      some ⟨some "2", some "1"⟩ := by decide +kernel
  rcases (argument_position none htakes run).left run none hcounted
    (.anPlusB (some "2") (some "1")) with ⟨hiff, hspaced⟩
  have hargument := hiff.mpr (IsPosition.of_read hread)
  exact ⟨htakes, hcounted, hargument, hspaced hargument⟩

/-- Two numbers become one, though no blank may stand between the digits of a number. -/
theorem argument_joined_digits :
    let run : List Token := [⟨.number "1", "1", ⟨1, 12, 11⟩⟩, ⟨.whitespace, " ", ⟨1, 13, 12⟩⟩,
      ⟨.number "2", "2", ⟨1, 14, 13⟩⟩]
    tokenize ":nth-child(1 2)" = .ok ([⟨.colon, ":", ⟨1, 1, 0⟩⟩,
        ⟨.function "nth-child", "nth-child(", ⟨1, 2, 1⟩⟩] ++ run ++
        [⟨.rightParen, ")", ⟨1, 15, 14⟩⟩, ⟨.eof, "", ⟨1, 16, 15⟩⟩]) ∧
      argument none "nth-child" run =
        ofConstruct (.nth (ofConstruct (.anPlusB none (some "12"))) none) ∧
      (Run.text run).toList ∉ spacedAnPlusB := by
  intro run
  have hcounted : IsCounted none run run none := IsCounted.all (splitOf?_eq_none_iff.mp rfl)
  have hread : AnPlusB.parse? (String.ofList (squeezed (Run.text run).toList)) =
      some ⟨none, some "12"⟩ := by decide +kernel
  have htakes : takesPosition "nth-child" = true := by decide +kernel
  refine ⟨by decide +kernel, ?_, ?_⟩
  · exact (argument_eq_nth_iff htakes hcounted _).mpr (IsPosition.of_read hread)
  · intro hspaced
    have hbeside := (mem_spacedAnPlusB_iff.mp hspaced).right ['1'] ' ' ['2'] (by decide) (by decide)
    have hlast : squeezed ['1'] = [] ++ ['1'] := by decide
    rcases hbeside.last hlast with hsign | ⟨hvariable, _⟩
    · cases hsign
    · cases hvariable

end Selector
end Stylesheet
