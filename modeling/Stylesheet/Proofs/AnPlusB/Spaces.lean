import Stylesheet.Proofs.AnPlusB.Notation

/-!
# The An+B notation with spaces

The notation allows spaces beside the sign of its offset and nowhere else.  Main statement: a text
is of the notation with spaces exactly when it is of the notation without its blanks and each of
its blanks is a space beside that sign.
-/

namespace Stylesheet

namespace Lexical

open AnPlusB Character
open scoped Computability

/-- An offset whose sign has spaces on both sides. -/
def spacedShift : Language Char :=
  (one isSpace)∗ * (one isSign * ((one isSpace)∗ * digits))

/-- The An+B notation with the spaces that it allows. -/
def spacedAnPlusB : Language Char :=
  stride * (one isVariable * optional spacedShift) + integer

end Lexical

namespace AnPlusB

open Character Lexical
open scoped Computability

/-- A text without its blanks. -/
def squeezed (text : List Char) : List Char :=
  text.filter fun c => !isBlank c

/--
A space that stands between the variable and a sign, or behind a sign that follows the variable;
blanks between them do not count.
-/
structure IsBesideSign (front : List Char) (space : Char) (back : List Char) : Prop where
  isSpace : Character.isSpace space = true
  beside : ((squeezed front).getLast?.any isVariable = true ∧
      (squeezed back).head?.any isSign = true) ∨
    exists before letter sign, squeezed front = before ++ [letter, sign] ∧
      isVariable letter = true ∧ isSign sign = true

section Blanks

variable {text front back : List Char} {c : Char}

theorem squeezed_append (front back : List Char) :
    squeezed (front ++ back) = squeezed front ++ squeezed back :=
  List.filter_append front back

theorem squeezed_cons (h : isBlank c = false) (text : List Char) :
    squeezed (c :: text) = c :: squeezed text :=
  List.filter_cons_of_pos (by rw [h]; rfl)

theorem squeezed_cons_of_isBlank (h : isBlank c = true) (text : List Char) :
    squeezed (c :: text) = squeezed text :=
  List.filter_cons_of_neg (by simp [h])

theorem squeezed_eq_self (h : forall c, c ∈ text -> isBlank c = false) : squeezed text = text := by
  refine List.filter_eq_self.mpr fun c hc => ?_
  rw [h c hc]
  rfl

theorem squeezed_eq_nil (h : forall c, c ∈ text -> isBlank c = true) : squeezed text = [] := by
  refine List.filter_eq_nil_iff.mpr fun c hc => ?_
  rw [h c hc]
  exact Bool.false_ne_true

theorem squeezed_eq_append {first second : List Char} (h : squeezed text = first ++ second) :
    exists front back, text = front ++ back ∧ squeezed front = first ∧ squeezed back = second :=
  List.filter_eq_append_iff.mp h

theorem squeezed_eq_cons {rest : List Char} (h : squeezed text = c :: rest) :
    exists blanks back, text = blanks ++ c :: back ∧ (forall d, d ∈ blanks -> isBlank d = true) ∧
      squeezed back = rest := by
  rcases List.filter_eq_cons_iff.mp h with ⟨blanks, back, htext, hblanks, _, hback⟩
  refine ⟨blanks, back, htext, fun d hd => ?_, hback⟩
  have := hblanks d hd
  rwa [Bool.not_eq_true', Bool.not_eq_false] at this

theorem not_isBlank_of_isSign (h : isSign c = true) : isBlank c = false := by
  simp only [isSign, Bool.or_eq_true, beq_iff_eq] at h
  rcases h with rfl | rfl <;> rfl

theorem not_isBlank_of_isVariable (h : isVariable c = true) : isBlank c = false := by
  simp only [isVariable, Bool.or_eq_true, beq_iff_eq] at h
  rcases h with rfl | rfl <;> rfl

theorem not_isBlank_of_isDigit (h : isDigit c = true) : isBlank c = false := by
  simp only [isDigit, Bool.and_eq_true, decide_eq_true_eq, Char.le_def, UInt32.le_iff_toNat_le] at h
  change 48 ≤ c.toNat ∧ c.toNat ≤ 57 at h
  rw [← Bool.not_eq_true]
  intro hblank
  simp only [isBlank, Bool.or_eq_true, Bool.and_eq_true, decide_eq_true_eq, beq_iff_eq] at hblank
  omega

theorem not_isBlank_of_mem_stride (h : text ∈ stride) (hc : c ∈ text) : isBlank c = false :=
  (isSign_or_isDigit_of_mem_stride h hc).elim not_isBlank_of_isSign not_isBlank_of_isDigit

/-- A blank stands behind whatever has none in front of it. -/
theorem exists_of_append_eq {solid rest : List Char}
    (hsolid : forall d, d ∈ solid -> isBlank d = false) (hc : isBlank c = true)
    (h : solid ++ rest = front ++ c :: back) :
    exists between, front = solid ++ between ∧ rest = between ++ c :: back := by
  induction solid generalizing front with
  | nil => exact ⟨front, rfl, h⟩
  | cons d solid ih =>
      cases front with
      | nil =>
          cases h
          rw [hsolid c List.mem_cons_self] at hc
          cases hc
      | cons e front =>
          rcases List.cons.inj h with ⟨rfl, htail⟩
          rcases ih (fun e he => hsolid e (List.mem_cons_of_mem d he)) htail with
            ⟨between, rfl, hrest⟩
          exact ⟨between, rfl, hrest⟩

/-- A blank stands before or behind a character that is none. -/
theorem before_or_behind {blanks rest : List Char} {d : Char} (hd : isBlank d = false)
    (hc : isBlank c = true) (h : blanks ++ d :: rest = front ++ c :: back) :
    (exists later, blanks = front ++ c :: later ∧ back = later ++ d :: rest) ∨
      exists later, front = blanks ++ d :: later ∧ rest = later ++ c :: back := by
  rcases List.append_eq_append_iff.mp h with ⟨later, hfront, hrest⟩ | ⟨later, hblanks, hback⟩
  · cases later with
    | nil =>
        cases hrest
        rw [hc] at hd
        cases hd
    | cons e later =>
        rcases List.cons.inj hrest with ⟨rfl, hlater⟩
        exact Or.inr ⟨later, hfront, hlater⟩
  · cases later with
    | nil =>
        cases hback
        rw [hc] at hd
        cases hd
    | cons e later =>
        rcases List.cons.inj hback with ⟨rfl, hlater⟩
        exact Or.inl ⟨later, hblanks, hlater⟩

end Blanks

section Spaced

variable {text places before after number front back : List Char} {c letter sign : Char}

/-- Without its blanks a text with spaces is one of the notation. -/
theorem squeezed_spaced (hplaces : forall c, c ∈ places -> isBlank c = false)
    (hletter : isVariable letter = true) (hbefore : forall c, c ∈ before -> isSpace c = true)
    (hsign : isSign sign = true) (hafter : forall c, c ∈ after -> isSpace c = true)
    (hnumber : number ∈ digits) :
    squeezed (places ++ letter :: (before ++ sign :: (after ++ number))) =
      places ++ letter :: sign :: number := by
  rw [squeezed_append, squeezed_eq_self hplaces, squeezed_cons (not_isBlank_of_isVariable hletter),
    squeezed_append, squeezed_eq_nil fun c hc => isBlank_of_isSpace (hbefore c hc),
    List.nil_append, squeezed_cons (not_isBlank_of_isSign hsign), squeezed_append,
    squeezed_eq_nil fun c hc => isBlank_of_isSpace (hafter c hc), List.nil_append,
    squeezed_eq_self fun c hc => not_isBlank_of_isDigit ((mem_digits_iff.mp hnumber).right c hc)]

/-- The blanks of a text with spaces are those on either side of its sign. -/
theorem isBesideSign_spaced (hplaces : forall c, c ∈ places -> isBlank c = false)
    (hletter : isVariable letter = true) (hbefore : forall c, c ∈ before -> isSpace c = true)
    (hsign : isSign sign = true) (hafter : forall c, c ∈ after -> isSpace c = true)
    (hnumber : number ∈ digits) (hc : isBlank c = true)
    (h : places ++ letter :: (before ++ sign :: (after ++ number)) = front ++ c :: back) :
    IsBesideSign front c back := by
  have hsolid : forall d, d ∈ places ++ [letter] -> isBlank d = false := by
    rw [List.forall_mem_append, List.forall_mem_singleton]
    exact ⟨hplaces, not_isBlank_of_isVariable hletter⟩
  have hbehind : forall blanks : List Char, (forall c, c ∈ blanks -> isSpace c = true) ->
      forall later, squeezed (places ++ [letter] ++ (blanks ++ later)) =
        places ++ [letter] ++ squeezed later := by
    intro blanks hblanks later
    rw [squeezed_append, squeezed_eq_self hsolid, squeezed_append,
      squeezed_eq_nil fun c hc => isBlank_of_isSpace (hblanks c hc), List.nil_append]
  rw [List.append_cons] at h
  rcases exists_of_append_eq hsolid hc h with ⟨middle, rfl, hmiddle⟩
  rcases before_or_behind (not_isBlank_of_isSign hsign) hc hmiddle with
    ⟨later, rfl, rfl⟩ | ⟨later, rfl, hlater⟩
  · -- The blank stands before the sign.
    rw [List.forall_mem_append, List.forall_mem_cons] at hbefore
    refine ⟨hbefore.2.1, Or.inl ⟨?_, ?_⟩⟩
    · have hfront := hbehind middle hbefore.1 []
      rw [List.append_nil] at hfront
      rw [hfront]
      simpa [squeezed] using hletter
    · rw [squeezed_append, squeezed_eq_nil fun c hc => isBlank_of_isSpace (hbefore.2.2 c hc),
        List.nil_append, squeezed_cons (not_isBlank_of_isSign hsign)]
      exact hsign
  · -- The blank stands behind the sign.
    rcases mem_one_mul_iff.mp hnumber with ⟨d, number, rfl, hd, hrest⟩
    rcases before_or_behind (not_isBlank_of_isDigit hd) hc hlater with
      ⟨later', rfl, rfl⟩ | ⟨later', rfl, hnumber⟩
    · rw [List.forall_mem_append, List.forall_mem_cons] at hafter
      refine ⟨hafter.2.1, Or.inr ⟨places, letter, sign, ?_, hletter, hsign⟩⟩
      rw [hbehind before hbefore, squeezed_cons (not_isBlank_of_isSign hsign),
        squeezed_eq_nil fun c hc => isBlank_of_isSpace (hafter.1 c hc), List.append_assoc]
      rfl
    · have hdigit := mem_kstar_one_iff.mp hrest c (by rw [hnumber]; simp)
      rw [not_isBlank_of_isDigit hdigit] at hc
      cases hc

/-- A blank beside the sign has the variable in front of it. -/
theorem IsBesideSign.exists_variable (h : IsBesideSign front c back) :
    exists letter, letter ∈ squeezed front ∧ isVariable letter = true := by
  rcases h.beside with ⟨hlast, _⟩ | ⟨before, letter, sign, hfront, hletter, _⟩
  · rcases (Option.any_eq_true _ _).mp hlast with ⟨letter, hlast, hletter⟩
    exact ⟨letter, List.mem_of_getLast? hlast, hletter⟩
  · exact ⟨letter, by simp [hfront], hletter⟩

/-- A blank beside the sign has the sign before or behind it. -/
theorem IsBesideSign.exists_sign (h : IsBesideSign front c back) :
    exists sign, (sign ∈ squeezed front ∨ sign ∈ squeezed back) ∧ isSign sign = true := by
  rcases h.beside with ⟨_, hhead⟩ | ⟨before, letter, sign, hfront, _, hsign⟩
  · rcases (Option.any_eq_true _ _).mp hhead with ⟨sign, hhead, hsign⟩
    exact ⟨sign, Or.inr (List.mem_of_head? hhead), hsign⟩
  · exact ⟨sign, Or.inl (by simp [hfront]), hsign⟩

/-- What stands last before a blank beside the sign is the variable or the sign. -/
theorem IsBesideSign.last (h : IsBesideSign front c back) {before : List Char} {last : Char}
    (hfront : squeezed front = before ++ [last]) :
    isSign last = true ∨ isVariable last = true ∧ (squeezed back).head?.any isSign = true := by
  rcases h.beside with ⟨hlast, hhead⟩ | ⟨before', letter, sign, hfront', hletter, hsign⟩
  · rw [hfront, List.getLast?_concat] at hlast
    exact Or.inr ⟨hlast, hhead⟩
  · have hlast := congrArg List.getLast? (hfront.symm.trans hfront')
    rw [List.getLast?_concat, List.append_cons, List.getLast?_concat, Option.some.injEq] at hlast
    exact Or.inl (hlast ▸ hsign)

/-- A text without the variable has no blank that stands beside the sign. -/
theorem eq_squeezed_of_plain (hplain : forall d, d ∈ squeezed text -> isVariable d = false)
    (hblanks : forall front c back, text = front ++ c :: back -> isBlank c = true ->
      exists behind, IsBesideSign front c behind) : text = squeezed text := by
  refine (squeezed_eq_self fun c hc => ?_).symm
  rw [← Bool.not_eq_true]
  intro hblank
  rcases List.append_of_mem hc with ⟨front, back, rfl⟩
  rcases hblanks front c back rfl hblank with ⟨behind, hbeside⟩
  rcases hbeside.exists_variable with ⟨letter, hmem, hletter⟩
  rw [squeezed_append] at hplain
  rw [hplain letter (List.mem_append_left _ hmem)] at hletter
  cases hletter

/-- A row of blanks that stand beside the sign is a row of spaces. -/
theorem mem_kstar_isSpace {blanks : List Char} (around : List Char)
    (hblank : forall c, c ∈ blanks -> isBlank c = true)
    (hblanks : forall front c back, blanks = front ++ c :: back -> isBlank c = true ->
      exists behind, IsBesideSign (around ++ front) c behind) : blanks ∈ (one isSpace)∗ := by
  refine mem_kstar_one fun c hc => ?_
  rcases List.append_of_mem hc with ⟨front, back, hsplit⟩
  rcases hblanks front c back hsplit (hblank c hc) with ⟨behind, hbeside⟩
  exact hbeside.isSpace

/-- A blank behind a digit has a digit as the last character before it, and stands by no sign. -/
theorem mem_digits_of_squeezed (around : List Char) {d : Char}
    (hdigits : d :: squeezed text ∈ digits)
    (hblanks : forall front c back, text = front ++ c :: back -> isBlank c = true ->
      IsBesideSign (around ++ d :: front) c back) : d :: text ∈ digits := by
  have hdigit := (mem_digits_iff.mp hdigits).right
  have hd : isDigit d = true := hdigit d List.mem_cons_self
  have hnone : forall c, c ∈ text -> isBlank c = false := by
    intro c hc
    rw [← Bool.not_eq_true]
    intro hblank
    rcases List.append_of_mem hc with ⟨front, back, rfl⟩
    rcases List.eq_nil_or_concat (d :: squeezed front) with hnil | ⟨first, last, hlast⟩
    · cases hnil
    rw [List.concat_eq_append] at hlast
    have hend : squeezed (around ++ d :: front) = squeezed around ++ first ++ [last] := by
      rw [squeezed_append, squeezed_cons (not_isBlank_of_isDigit hd), hlast,
        List.append_assoc]
    have hlastDigit : isDigit last = true := by
      refine hdigit last ?_
      rw [squeezed_append, ← List.cons_append, hlast]
      simp
    rcases (hblanks front c back rfl hblank).last hend with hsign | ⟨hvariable, _⟩
    · rw [not_isSign_of_isDigit hlastDigit] at hsign
      cases hsign
    · rw [not_isVariable_of_isDigit hlastDigit] at hvariable
      cases hvariable
  rwa [squeezed_eq_self hnone] at hdigits

/-- A blank directly behind the variable has a sign behind it. -/
theorem eq_nil_of_squeezed_eq_nil {around before : List Char}
    (haround : squeezed around = before ++ [letter]) (hletter : isVariable letter = true)
    (h : squeezed text = [])
    (hblanks : forall front c back, text = front ++ c :: back -> isBlank c = true ->
      IsBesideSign (around ++ front) c back) : text = [] := by
  cases text with
  | nil => rfl
  | cons c back =>
      have hc : isBlank c = true := by
        have := List.filter_eq_nil_iff.mp h c List.mem_cons_self
        rwa [Bool.not_eq_true', Bool.not_eq_false] at this
      have hback : squeezed back = [] := (squeezed_cons_of_isBlank hc back).symm.trans h
      have hbeside := hblanks [] c back rfl hc
      rw [List.append_nil] at hbeside
      rcases hbeside.last haround with hsign | ⟨_, hhead⟩
      · rw [not_isVariable_of_isSign hsign] at hletter
        cases hletter
      · rw [hback] at hhead
        cases hhead

/-- Behind the variable the blanks that are allowed are those of an offset with spaces. -/
theorem mem_spacedShift {around before : List Char} (haround : squeezed around = before ++ [letter])
    (hletter : isVariable letter = true) (hshift : squeezed text ∈ optional shift)
    (hblanks : forall front c back, text = front ++ c :: back -> isBlank c = true ->
      IsBesideSign (around ++ front) c back) : text ∈ optional spacedShift := by
  rcases hshift with hnil | hshift
  · rw [eq_nil_of_squeezed_eq_nil haround hletter hnil hblanks]
    exact nil_mem_optional _
  · rcases mem_one_mul_iff.mp hshift with ⟨sign, number, hsqueezed, hsign, hnumber⟩
    rcases mem_one_mul_iff.mp hnumber with ⟨d, number, rfl, _, _⟩
    rcases squeezed_eq_cons hsqueezed with ⟨spaces, behind, rfl, hspaces, hbehind⟩
    rcases squeezed_eq_cons hbehind with ⟨spaces', more, rfl, hspaces', rfl⟩
    refine mem_optional (Language.append_mem_mul ?_ (cons_mem_one_mul hsign
      (Language.append_mem_mul ?_ ?_)))
    · refine mem_kstar_isSpace around hspaces ?_
      rintro front c back rfl hc
      exact ⟨_, hblanks front c (back ++ sign :: (spaces' ++ d :: more)) (by simp) hc⟩
    · refine mem_kstar_isSpace (around ++ spaces ++ [sign]) hspaces' ?_
      rintro front c back rfl hc
      have hbeside := hblanks (spaces ++ sign :: front) c (back ++ d :: more) (by simp) hc
      exact ⟨back ++ d :: more, by simpa using hbeside⟩
    · refine mem_digits_of_squeezed (around ++ spaces ++ sign :: spaces') hnumber ?_
      rintro front c back rfl hc
      have hbeside := hblanks (spaces ++ sign :: (spaces' ++ d :: front)) c back (by simp) hc
      simpa using hbeside

/-- Without its blanks a text with spaces is of the notation, and its blanks are beside its sign. -/
theorem squeezed_mem_of_mem_spacedAnPlusB (h : text ∈ spacedAnPlusB) :
    squeezed text ∈ anPlusB ∧
      forall front c back, text = front ++ c :: back -> isBlank c = true ->
        IsBesideSign front c back := by
  have hsolid : (forall c, c ∈ text -> isBlank c = false) -> text ∈ anPlusB ->
      squeezed text ∈ anPlusB ∧
        forall front c back, text = front ++ c :: back -> isBlank c = true ->
          IsBesideSign front c back := by
    intro hnone htext
    rw [squeezed_eq_self hnone]
    refine ⟨htext, ?_⟩
    rintro front c back rfl hc
    rw [hnone c (by simp)] at hc
    cases hc
  rcases h with hsteps | hinteger
  · rcases Language.mem_mul.mp hsteps with ⟨places, hplaces, behind, hbehind, rfl⟩
    rcases mem_one_mul_iff.mp hbehind with ⟨letter, rest, rfl, hletter, hrest⟩
    have hplaces' : forall c, c ∈ places -> isBlank c = false := fun c hc =>
      not_isBlank_of_mem_stride hplaces hc
    rcases hrest with hnil | hshift
    · cases hnil
      refine hsolid ?_ ?_
      · rw [List.forall_mem_append, List.forall_mem_singleton]
        exact ⟨hplaces', not_isBlank_of_isVariable hletter⟩
      · have hbare := cons_mem_one_mul hletter (nil_mem_optional shift)
        exact Or.inl (Language.append_mem_mul hplaces hbare)
    · rcases Language.mem_mul.mp hshift with ⟨before, hbefore, signed, hsigned, rfl⟩
      rcases mem_one_mul_iff.mp hsigned with ⟨sign, rest, rfl, hsign, hrest⟩
      rcases Language.mem_mul.mp hrest with ⟨after, hafter, number, hnumber, rfl⟩
      rw [mem_kstar_one_iff] at hbefore hafter
      constructor
      · rw [squeezed_spaced hplaces' hletter hbefore hsign hafter hnumber]
        exact Or.inl (Language.append_mem_mul hplaces
          (cons_mem_one_mul hletter (mem_optional (cons_mem_one_mul hsign hnumber))))
      · intro front c back htext hc
        exact isBesideSign_spaced hplaces' hletter hbefore hsign hafter hnumber hc htext
  · have hstride := mem_stride_of_mem_integer hinteger
    exact hsolid (fun c hc => not_isBlank_of_mem_stride hstride hc) (Or.inr hinteger)

/--
A text is of the notation with spaces exactly when it is of the notation without its blanks and
each of its blanks is a space beside the sign of its offset.
-/
theorem mem_spacedAnPlusB_iff :
    text ∈ spacedAnPlusB <-> squeezed text ∈ anPlusB ∧
      forall front c back, text = front ++ c :: back -> isBlank c = true ->
        IsBesideSign front c back := by
  refine ⟨squeezed_mem_of_mem_spacedAnPlusB, ?_⟩
  rintro ⟨hsqueezed, hblanks⟩
  rcases hsqueezed with hsteps | hinteger
  · rcases Language.mem_mul.mp hsteps with ⟨places, hplaces, behind, hbehind, heq⟩
    rcases mem_one_mul_iff.mp hbehind with ⟨letter, rest, rfl, hletter, hshift⟩
    rcases squeezed_eq_append heq.symm with ⟨front, back, rfl, rfl, hback⟩
    rcases squeezed_eq_cons hback with ⟨blanks, later, rfl, hblank, rfl⟩
    have hfront : squeezed (front ++ blanks) = squeezed front := by
      rw [squeezed_append, squeezed_eq_nil hblank, List.append_nil]
    rw [← hfront] at hplaces
    have hplain : front ++ blanks = squeezed (front ++ blanks) := by
      refine eq_squeezed_of_plain (fun d hd => not_isVariable_of_mem_stride hplaces hd) ?_
      intro front' c back hsplit hc
      refine ⟨back ++ letter :: later, hblanks front' c _ ?_ hc⟩
      rw [← List.append_assoc, hsplit]
      simp
    rw [← hplain] at hplaces
    rw [← List.append_assoc]
    refine Or.inl (Language.append_mem_mul hplaces (cons_mem_one_mul hletter ?_))
    have haround : squeezed (front ++ blanks ++ [letter]) = front ++ blanks ++ [letter] := by
      refine squeezed_eq_self ?_
      rw [List.forall_mem_append, List.forall_mem_singleton]
      exact ⟨fun c hc => not_isBlank_of_mem_stride hplaces hc, not_isBlank_of_isVariable hletter⟩
    refine mem_spacedShift haround hletter hshift ?_
    rintro front' c back rfl hc
    exact hblanks _ c back (by simp) hc
  · have hstride := mem_stride_of_mem_integer hinteger
    have hplain : text = squeezed text := by
      refine eq_squeezed_of_plain (fun d hd => not_isVariable_of_mem_stride hstride hd) ?_
      intro front c back htext hc
      exact ⟨back, hblanks front c back htext hc⟩
    rw [hplain]
    exact Or.inr hinteger

end Spaced

end AnPlusB
end Stylesheet
