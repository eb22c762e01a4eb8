import Stylesheet.AnPlusB
import Stylesheet.Proofs.Token.Lexical

/-!
# The texts of the An+B notation and what they stand for

The texts of the notation make up a language, and each of them stands for two integers: the step
and the offset of the places that it names.  Main statement: exactly the texts of the language are
read, and what is read is written as a text that stands for the same integers and reads back as the
same coefficients.
-/

namespace Stylesheet

namespace Lexical

open AnPlusB Character
open scoped Computability

/-! ## The language -/

/-- Digits behind a sign, which may be left out. -/
def integer : Language Char :=
  optional (one isSign) * digits

/-- What stands before the variable: a sign and digits, and either may be left out. -/
def stride : Language Char :=
  optional (one isSign) * (one isDigit)∗

/-- What stands behind the variable: digits behind a sign. -/
def shift : Language Char :=
  one isSign * digits

/-- The An+B notation without spaces. -/
def anPlusB : Language Char :=
  stride * (one isVariable * optional shift) + integer

section Languages

variable {L : Language Char} {p : Char -> Bool} {c : Char} {text front rest : List Char}

theorem mem_one_mul_iff :
    text ∈ one p * L <-> exists c rest, text = c :: rest ∧ p c = true ∧ rest ∈ L := by
  constructor
  · intro h
    rcases Language.mem_mul.mp h with ⟨_, ⟨c, hc, rfl⟩, rest, hrest, rfl⟩
    exact ⟨c, rest, rfl, hc, hrest⟩
  · rintro ⟨c, rest, rfl, hc, hrest⟩
    exact cons_mem_one_mul hc hrest

theorem cons_mem_one_mul_iff : c :: text ∈ one p * L <-> p c = true ∧ text ∈ L := by
  rw [mem_one_mul_iff]
  constructor
  · rintro ⟨c, rest, heq, hc, hrest⟩
    cases heq
    exact ⟨hc, hrest⟩
  · rintro ⟨hc, htext⟩
    exact ⟨c, text, rfl, hc, htext⟩

theorem mem_kstar_one_iff : text ∈ (one p)∗ <-> forall c, c ∈ text -> p c = true := by
  constructor
  · intro h c hc
    rcases Language.mem_kstar.mp h with ⟨parts, rfl, hparts⟩
    rcases List.mem_flatten.mp hc with ⟨part, hpart, hc⟩
    rcases hparts part hpart with ⟨d, hd, rfl⟩
    rw [List.mem_singleton.mp hc]
    exact hd
  · exact mem_kstar_one

theorem mem_digits_iff : text ∈ digits <-> text ≠ [] ∧ forall c, c ∈ text -> isDigit c = true := by
  cases text with
  | nil =>
      refine iff_of_false ?_ fun h => h.left rfl
      intro h
      rcases mem_one_mul_iff.mp h with ⟨c, rest, hnil, _⟩
      cases hnil
  | cons c rest =>
      rw [digits, cons_mem_one_mul_iff, mem_kstar_one_iff, List.forall_mem_cons]
      exact (and_iff_right (List.cons_ne_nil c rest)).symm

theorem mem_integer_iff : text ∈ integer <-> text ∈ shift ∨ text ∈ digits := by
  rw [integer, optional, add_mul, one_mul, or_comm]
  rfl

/-- A stride is a sign, or an integer, or nothing. -/
theorem mem_stride_iff :
    text ∈ stride <-> text = [] ∨ (exists c, isSign c = true ∧ text = [c]) ∨ text ∈ integer := by
  rw [stride, ← Language.one_add_self_mul_kstar_eq_kstar, mul_add, mul_one]
  change (text = [] ∨ text ∈ one isSign) ∨ text ∈ integer <-> _
  exact or_assoc

theorem not_isSign_of_isDigit (h : isDigit c = true) : isSign c = false := by
  rw [← Bool.not_eq_true]
  intro hsign
  simp only [isSign, Bool.or_eq_true, beq_iff_eq] at hsign
  rcases hsign with rfl | rfl <;> cases h

theorem not_isVariable_of_isDigit (h : isDigit c = true) : isVariable c = false := by
  rw [← Bool.not_eq_true]
  intro hvariable
  simp only [isVariable, Bool.or_eq_true, beq_iff_eq] at hvariable
  rcases hvariable with rfl | rfl <;> cases h

theorem not_isVariable_of_isSign (h : isSign c = true) : isVariable c = false := by
  simp only [isSign, Bool.or_eq_true, beq_iff_eq] at h
  rcases h with rfl | rfl <;> rfl

theorem mem_stride_of_mem_integer (h : text ∈ integer) : text ∈ stride :=
  mem_stride_iff.mpr (Or.inr (Or.inr h))

/-- There is nothing but signs and digits before the variable. -/
theorem isSign_or_isDigit_of_mem_stride (h : text ∈ stride) (hc : c ∈ text) :
    isSign c = true ∨ isDigit c = true := by
  rcases Language.mem_mul.mp h with ⟨sign, hsign, number, hnumber, rfl⟩
  rcases List.mem_append.mp hc with hc | hc
  · rcases hsign with hnil | ⟨d, hd, rfl⟩
    · cases hnil
      cases hc
    · rw [List.mem_singleton.mp hc]
      exact Or.inl hd
  · exact Or.inr (mem_kstar_one_iff.mp hnumber c hc)

theorem not_isVariable_of_mem_stride (h : text ∈ stride) (hc : c ∈ text) :
    isVariable c = false :=
  (isSign_or_isDigit_of_mem_stride h hc).elim not_isVariable_of_isSign not_isVariable_of_isDigit

end Languages

end Lexical

namespace AnPlusB

open Character Lexical

/-! ## Texts cut at the variable -/

section Cut

variable {text front rest : List Char} {c : Char}

/-- There is no variable in a text, or the text is cut at the first one. -/
theorem variable_cases (text : List Char) :
    (forall c, c ∈ text -> isVariable c = false) ∨
      exists front c rest, text = front ++ c :: rest ∧
        (forall d, d ∈ front -> isVariable d = false) ∧ isVariable c = true := by
  cases hfind : text.find? isVariable with
  | none =>
      refine Or.inl fun c hc => ?_
      exact Bool.not_eq_true _ ▸ List.find?_eq_none.mp hfind c hc
  | some c =>
      rcases List.find?_eq_some_iff_append.mp hfind with ⟨hc, front, rest, htext, hfront⟩
      refine Or.inr ⟨front, c, rest, htext, fun d hd => ?_, hc⟩
      exact Bool.not_eq_true' _ ▸ hfront d hd

theorem takeWhile_variable (hfront : forall d, d ∈ front -> isVariable d = false)
    (hc : isVariable c = true) (rest : List Char) :
    (front ++ c :: rest).takeWhile (fun d => !isVariable d) = front := by
  have hpass : forall d, d ∈ front -> (!isVariable d) = true := by
    intro d hd
    rw [hfront d hd]
    rfl
  rw [List.takeWhile_append_of_pos hpass, List.takeWhile_cons_of_neg (by simp [hc]),
    List.append_nil]

theorem dropWhile_variable (hfront : forall d, d ∈ front -> isVariable d = false)
    (hc : isVariable c = true) (rest : List Char) :
    (front ++ c :: rest).dropWhile (fun d => !isVariable d) = c :: rest := by
  have hpass : forall d, d ∈ front -> (!isVariable d) = true := by
    intro d hd
    rw [hfront d hd]
    rfl
  rw [List.dropWhile_append_of_pos hpass, List.dropWhile_cons_of_neg (by simp [hc])]

theorem dropWhile_plain (h : forall d, d ∈ text -> isVariable d = false) :
    text.dropWhile (fun d => !isVariable d) = [] := by
  rw [List.dropWhile_eq_nil_iff]
  intro d hd
  rw [h d hd]
  rfl

theorem takeWhile_plain (h : forall d, d ∈ text -> isVariable d = false) :
    text.takeWhile (fun d => !isVariable d) = text := by
  rw [List.takeWhile_eq_self_iff]
  intro d hd
  rw [h d hd]
  rfl

theorem mem_anPlusB_plain (h : forall d, d ∈ text -> isVariable d = false) :
    text ∈ anPlusB <-> text ∈ integer := by
  refine ⟨fun htext => ?_, Or.inr⟩
  rcases htext with hsteps | hinteger
  · rcases Language.mem_mul.mp hsteps with ⟨stride, _, behind, hbehind, rfl⟩
    rcases mem_one_mul_iff.mp hbehind with ⟨c, rest, rfl, hc, _⟩
    rw [h c (List.mem_append_right stride List.mem_cons_self)] at hc
    cases hc
  · exact hinteger

theorem mem_anPlusB_variable (hfront : forall d, d ∈ front -> isVariable d = false)
    (hc : isVariable c = true) :
    front ++ c :: rest ∈ anPlusB <-> front ∈ stride ∧ rest ∈ optional shift := by
  constructor
  · rintro (hsteps | hinteger)
    · rcases Language.mem_mul.mp hsteps with ⟨front', hstride, behind, hbehind, heq⟩
      rcases mem_one_mul_iff.mp hbehind with ⟨d, rest', rfl, hd, hshift⟩
      have hfront' : forall e, e ∈ front' -> isVariable e = false :=
        fun e he => not_isVariable_of_mem_stride hstride he
      have htake := congrArg (List.takeWhile fun e => !isVariable e) heq
      have hdrop := congrArg (List.dropWhile fun e => !isVariable e) heq
      rw [takeWhile_variable hfront' hd, takeWhile_variable hfront hc] at htake
      rw [dropWhile_variable hfront' hd, dropWhile_variable hfront hc] at hdrop
      cases hdrop
      exact ⟨htake ▸ hstride, hshift⟩
    · rw [not_isVariable_of_mem_stride (mem_stride_of_mem_integer hinteger) (by simp)] at hc
      cases hc
  · rintro ⟨hstride, hshift⟩
    exact Or.inl (Language.append_mem_mul hstride (cons_mem_one_mul hc hshift))

end Cut

/-! ## The texts that are read -/

section Reading

variable {text front rest : List Char} {c : Char}

theorem isInteger_iff : isInteger text = true <-> text ∈ integer := by
  rw [mem_integer_iff, shift]
  cases text with
  | nil =>
      rw [mem_one_mul_iff, mem_digits_iff]
      simp [isInteger]
  | cons c rest =>
      rw [cons_mem_one_mul_iff, isInteger]
      split
      · rename_i hsign
        have hnot : c :: rest ∉ digits := by
          intro hdigits
          have hc := (mem_digits_iff.mp hdigits).right c List.mem_cons_self
          rw [not_isSign_of_isDigit hc] at hsign
          cases hsign
        rw [or_iff_left hnot, and_iff_right hsign, mem_digits_iff, Bool.and_eq_true,
          List.all_eq_true]
        simp
      · rename_i hsign
        rw [or_iff_right fun h => hsign h.left, mem_digits_iff, List.all_eq_true]
        exact (and_iff_right (List.cons_ne_nil c rest)).symm

theorem isSome_step?_iff : (step? front).isSome = true <-> front ∈ stride := by
  rw [mem_stride_iff]
  fun_cases step? front with
  | case1 => exact iff_of_true rfl (Or.inl rfl)
  | case2 => exact iff_of_true rfl (Or.inr (Or.inl ⟨'+', rfl, rfl⟩))
  | case3 => exact iff_of_true rfl (Or.inr (Or.inl ⟨'-', rfl, rfl⟩))
  | case4 _ hnil hplus hminus hinteger =>
      exact iff_of_true rfl (Or.inr (Or.inr (isInteger_iff.mp hinteger)))
  | case5 _ hnil hplus hminus hinteger =>
      refine iff_of_false Bool.false_ne_true ?_
      rintro (rfl | ⟨c, hc, rfl⟩ | h)
      · exact hnil rfl
      · simp only [isSign, Bool.or_eq_true, beq_iff_eq] at hc
        rcases hc with rfl | rfl
        · exact hplus rfl
        · exact hminus rfl
      · exact hinteger (isInteger_iff.mpr h)

/-- An offset is kept as it is written, but for a plus sign. -/
theorem offset?_cons (h : isSign c = true) (rest : List Char) :
    offset? (c :: rest) =
      if isInteger (c :: rest) then some (String.ofList (if c = '+' then rest else c :: rest))
      else none := by
  simp only [isSign, Bool.or_eq_true, beq_iff_eq] at h
  rcases h with rfl | rfl <;> rfl

theorem offset?_eq_none (h : forall c, text.head? = some c -> isSign c = false) :
    offset? text = none := by
  unfold offset?
  split
  · cases h '+' rfl
  · cases h '-' rfl
  · rfl

theorem isSome_offset?_iff : (offset? rest).isSome = true <-> rest ∈ shift := by
  by_cases hhead : exists c more, rest = c :: more ∧ isSign c = true
  · rcases hhead with ⟨c, more, rfl, hc⟩
    have hdigits : c :: more ∉ digits := by
      intro hdigits
      rw [not_isSign_of_isDigit ((mem_digits_iff.mp hdigits).right c List.mem_cons_self)] at hc
      cases hc
    rw [offset?_cons hc, ← or_iff_left (a := c :: more ∈ shift) hdigits, ← mem_integer_iff,
      ← isInteger_iff]
    split
    · exact iff_of_true rfl ‹_›
    · exact iff_of_false Bool.false_ne_true ‹_›
  · have hnone : offset? rest = none := by
      refine offset?_eq_none fun c hc => ?_
      rw [← Bool.not_eq_true]
      intro hsign
      cases rest with
      | nil => cases hc
      | cons d more =>
          cases hc
          exact hhead ⟨c, more, rfl, hsign⟩
    rw [hnone]
    refine iff_of_false Bool.false_ne_true ?_
    intro h
    rcases mem_one_mul_iff.mp h with ⟨c, more, rfl, hc, _⟩
    exact hhead ⟨c, more, rfl, hc⟩

theorem parse?_plain (h : forall d, d ∈ text -> isVariable d = false) :
    parse? (String.ofList text) =
      if isInteger text then some ⟨none, some (String.ofList text)⟩ else none := by
  simp only [parse?, String.toList_ofList, dropWhile_plain h, takeWhile_plain h]

theorem parse?_variable (hfront : forall d, d ∈ front -> isVariable d = false)
    (hc : isVariable c = true) (rest : List Char) :
    parse? (String.ofList (front ++ c :: rest)) =
      (step? front).bind fun a =>
        if rest = [] then some ⟨some a, none⟩
        else (offset? rest).map fun b => ⟨some a, some b⟩ := by
  simp only [parse?, String.toList_ofList, takeWhile_variable hfront hc,
    dropWhile_variable hfront hc]
  cases rest with
  | nil => cases step? front <;> rfl
  | cons d rest =>
      cases hstep : step? front with
      | none => rfl
      | some a => cases hoffset : offset? (d :: rest) <;> simp [hoffset]

theorem isSome_parse?_iff (text : List Char) :
    (parse? (String.ofList text)).isSome = true <-> text ∈ anPlusB := by
  rcases variable_cases text with hplain | ⟨front, c, rest, rfl, hfront, hc⟩
  · rw [parse?_plain hplain, mem_anPlusB_plain hplain, ← isInteger_iff]
    split
    · exact iff_of_true rfl ‹_›
    · exact iff_of_false Bool.false_ne_true ‹_›
  · have hshift : rest ∈ optional shift <-> rest = [] ∨ (offset? rest).isSome = true := by
      rw [isSome_offset?_iff]
      rfl
    rw [parse?_variable hfront hc, mem_anPlusB_variable hfront hc, hshift, ← isSome_step?_iff]
    cases step? front with
    | none => simp
    | some a => by_cases hnil : rest = [] <;> simp [hnil]

end Reading

/-! ## What a text stands for -/

/-- What an integer is worth; the empty text is worth nothing. -/
def integerOf : List Char -> Int
  | '-' :: digits => -(Nat.ofDigitChars 10 digits 0 : Int)
  | '+' :: digits => Nat.ofDigitChars 10 digits 0
  | digits => Nat.ofDigitChars 10 digits 0

/-- What a stride is worth: one place where no digits are written. -/
def strideOf : List Char -> Int
  | [] => 1
  | ['+'] => 1
  | ['-'] => -1
  | digits => integerOf digits

/-- The step and the offset that a text of the notation stands for. -/
def meaning (text : List Char) : Int × Int :=
  match text.dropWhile fun c => !isVariable c with
  | [] => (0, integerOf text)
  | _ :: shift => (strideOf (text.takeWhile fun c => !isVariable c), integerOf shift)

section Writing

variable {front rest : List Char} {c : Char} {a b : String}

theorem meaning_variable (hfront : forall d, d ∈ front -> isVariable d = false)
    (hc : isVariable c = true) (rest : List Char) :
    meaning (front ++ c :: rest) = (strideOf front, integerOf rest) := by
  simp only [meaning, takeWhile_variable hfront hc, dropWhile_variable hfront hc]

/-- A step is written as a stride that is worth the same and is read as the same step. -/
theorem exists_stepText (h : step? front = some a) :
    exists front', (stepText a).toList = front' ++ ['n'] ∧ step? front' = some a ∧
      strideOf front' = strideOf front := by
  fun_cases step? front with
  | case1 =>
      cases h
      exact ⟨[], rfl, rfl, rfl⟩
  | case2 =>
      cases h
      exact ⟨['+'], rfl, rfl, rfl⟩
  | case3 =>
      cases h
      exact ⟨['-'], rfl, rfl, rfl⟩
  | case4 _ hnil hplus hminus hinteger =>
      have hstep : step? front = some (String.ofList front) := by
        rw [step?, if_pos hinteger]
        all_goals assumption
      rw [hstep, Option.some.injEq] at h
      have hfront : front = a.toList := by rw [← h, String.toList_ofList]
      -- The steps of one place are written without their digit, like those that have none.
      unfold stepText
      split
      · rename_i hone
        rw [hone] at hfront ⊢
        rw [hfront]
        exact ⟨[], rfl, rfl, rfl⟩
      · split
        · rename_i hone
          rw [hone] at hfront ⊢
          rw [hfront]
          exact ⟨['+'], rfl, rfl, rfl⟩
        · split
          · rename_i hone
            rw [hone] at hfront ⊢
            rw [hfront]
            exact ⟨['-'], rfl, rfl, rfl⟩
          · refine ⟨front, ?_, h ▸ hstep, rfl⟩
            rw [String.toList_append, ← hfront]
            rfl
  | case5 _ hnil hplus hminus hinteger =>
      rw [step?, if_neg hinteger] at h
      · cases h
      all_goals assumption

/-- An offset is written as it stood behind the variable. -/
theorem toList_offsetText (h : offset? rest = some b) : (offsetText b).toList = rest := by
  have hshift := isSome_offset?_iff.mp (Option.isSome_of_eq_some h)
  rcases mem_one_mul_iff.mp hshift with ⟨c, digits, rfl, hc, hdigits⟩
  rw [offset?_cons hc] at h
  split at h
  · cases h
    split
    · subst c
      rcases mem_digits_iff.mp hdigits with ⟨hne, hall⟩
      cases digits with
      | nil => exact absurd rfl hne
      | cons d digits =>
          have hd := not_isSign_of_isDigit (hall d List.mem_cons_self)
          simp [offsetText, hd]
    · simp [offsetText, hc]
  · cases h

/--
What is read is written as it stood, but for the case of the variable and for a stride of one place,
which is written without its digit.
-/
theorem text_cases {chars : List Char} {formula : AnPlusB}
    (h : parse? (String.ofList chars) = some formula) :
    formula.text.toList = chars ∨
      exists front front' c rest, chars = front ++ c :: rest ∧ isVariable c = true ∧
        front ∈ stride ∧ front' ∈ stride ∧ formula.text.toList = front' ++ 'n' :: rest ∧
          step? front' = step? front ∧ strideOf front' = strideOf front := by
  rcases variable_cases chars with hplain | ⟨front, c, rest, rfl, hfront, hc⟩
  · rw [parse?_plain hplain] at h
    split at h
    · cases h
      exact Or.inl String.toList_ofList
    · cases h
  · rw [parse?_variable hfront hc] at h
    rcases Option.bind_eq_some_iff.mp h with ⟨a, ha, h⟩
    rcases exists_stepText ha with ⟨front', hstep, ha', hstride⟩
    have hmem := isSome_step?_iff.mp (Option.isSome_of_eq_some ha)
    have hmem' := isSome_step?_iff.mp (Option.isSome_of_eq_some ha')
    refine Or.inr ⟨front, front', c, rest, rfl, hc, hmem, hmem', ?_, ha'.trans ha.symm, hstride⟩
    split at h
    · rename_i hnil
      cases h
      rw [AnPlusB.text, hstep, hnil]
    · rcases Option.map_eq_some_iff.mp h with ⟨b, hb, rfl⟩
      rw [AnPlusB.text, String.toList_append, hstep, toList_offsetText hb, List.append_assoc]
      rfl

/-- The coefficients that are read are read from their own text again. -/
theorem parse?_text {text : String} {formula : AnPlusB} (h : parse? text = some formula) :
    parse? formula.text = some formula := by
  rw [← String.ofList_toList (s := text)] at h
  rcases text_cases h with hsame | ⟨front, front', c, rest, hchars, hc, hfront, hfront', hwritten,
    hstep, -⟩
  · rw [← String.ofList_toList (s := formula.text), hsame, h]
  · rw [hchars, parse?_variable (fun d hd => not_isVariable_of_mem_stride hfront hd) hc] at h
    rw [← String.ofList_toList (s := formula.text), hwritten,
      parse?_variable (fun d hd => not_isVariable_of_mem_stride hfront' hd) rfl, hstep, h]

end Writing

/--
Exactly the texts of the notation are read.  The coefficients that are read are written as a text
that stands for the same step and the same offset, and they are read from that text again.
-/
theorem isSome_parse?_iff_and_meaning_text (text : String) :
    ((parse? text).isSome = true <-> text.toList ∈ anPlusB) ∧
      forall formula, parse? text = some formula ->
        meaning formula.text.toList = meaning text.toList ∧
          parse? formula.text = some formula := by
  have htext : String.ofList text.toList = text := String.ofList_toList
  generalize text.toList = chars at *
  subst htext
  refine ⟨isSome_parse?_iff chars, fun formula h => ⟨?_, parse?_text h⟩⟩
  rcases text_cases h with hsame | ⟨front, front', c, rest, rfl, hc, hfront, hfront', hwritten, -,
    hstride⟩
  · rw [hsame]
  · rw [hwritten, meaning_variable (fun d hd => not_isVariable_of_mem_stride hfront' hd) rfl,
      meaning_variable (fun d hd => not_isVariable_of_mem_stride hfront hd) hc, hstride]

/-- A step without digits, a variable in upper case and an offset with a leading zero. -/
theorem meaning_text_upper_case :
    parse? "-N+05" = some ⟨some "-1", some "05"⟩ ∧ "-N+05".toList ∈ anPlusB ∧
      meaning "-N+05".toList = (-1, 5) ∧ meaning "-n+05".toList = (-1, 5) ∧
      parse? "-n+05" = some ⟨some "-1", some "05"⟩ := by
  have hread : parse? "-N+05" = some ⟨some "-1", some "05"⟩ := by decide
  have hdenotes : meaning "-N+05".toList = (-1, 5) := by decide
  rcases isSome_parse?_iff_and_meaning_text "-N+05" with ⟨hiff, hwritten⟩
  rcases hwritten _ hread with ⟨hsame, hagain⟩
  exact ⟨hread, hiff.mp (Option.isSome_of_eq_some hread), hdenotes, hsame.trans hdenotes, hagain⟩

end AnPlusB
end Stylesheet
