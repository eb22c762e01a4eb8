import Stylesheet.Proofs.Canonical.Syntax
import Stylesheet.Proofs.Token.Joints

/-!
# Words and numbers in front of what follows

A word is read as a name wherever no character of a name and no parenthesis follows, and a number
in front of what may stand behind an item.
-/

namespace Stylesheet
namespace Canonical

open Character Token

/-! ## What follows -/

/-- A text that a name does not go on with. -/
def EndsWord (text : List Char) : Prop :=
  forall b, b ∈ text.head? -> isNameChar b = false ∧ b ≠ '\\' ∧ b ≠ '('

/-- The characters that may stand behind an item. -/
def itemEnds : List Char :=
  [' ', ',', ')', ';', '\x7b', '\x7d', '!']

/-- A text that may stand behind an item. -/
def EndsItem (text : List Char) : Prop :=
  forall b, b ∈ text.head? -> b ∈ itemEnds

theorem endsWord_cons {b : Char} (hb : isNameChar b = false ∧ b ≠ '\\' ∧ b ≠ '(')
    (rest : List Char) : EndsWord (b :: rest) := by
  intro c hc
  cases hc
  exact hb

theorem endsItem_cons {b : Char} (hb : b ∈ itemEnds) (rest : List Char) :
    EndsItem (b :: rest) := by
  intro c hc
  cases hc
  exact hb

/-- What the tests of names and numbers say of a character behind an item. -/
theorem of_mem_itemEnds {b : Char} (h : b ∈ itemEnds) :
    (isNameChar b = false ∧ b ≠ '\\' ∧ b ≠ '(') ∧
      isDigit b = false ∧ b ≠ '.' ∧ b ≠ '%' ∧ b ≠ 'e' ∧ b ≠ 'E' ∧ isSign b = false ∧ b ≠ '-' := by
  simp only [itemEnds, List.mem_cons, List.not_mem_nil, or_false] at h
  rcases h with rfl | rfl | rfl | rfl | rfl | rfl | rfl <;> decide

theorem EndsItem.endsWord {text : List Char} (h : EndsItem text) : EndsWord text :=
  fun b hb => (of_mem_itemEnds (h b hb)).left

theorem splitUnit?_eq_none {text : List Char} (h : EndsWord text) :
    Name.splitUnit? text = none := by
  cases text with
  | nil => rfl
  | cons b rest =>
      rcases h b rfl with ⟨hname, hbackslash, -⟩
      rw [← Option.not_isSome_iff_eq_none, Name.splitUnit?_isSome,
        Name.startsEscape_cons hbackslash]
      simp [hname]

/-! ## Words -/

theorem isNameChar_of_isWordChar {c : Char} (h : isWordChar c = true) : isNameChar c = true := by
  simp only [isWordChar, Bool.or_eq_true] at h
  simp only [isNameChar, isNameStart, Bool.or_eq_true]
  rcases h with ((h | h) | h) | h
  · exact Or.inl (Or.inl (Or.inl (Or.inl h)))
  · exact Or.inl (Or.inr h)
  · exact Or.inl (Or.inl (Or.inl (Or.inr h)))
  · exact Or.inr h

theorem isNameStart_of_isLetter {c : Char} (h : isLetter c = true) : isNameStart c = true := by
  simp only [isNameStart, h, Bool.true_or]

/-- The characters of a word: a letter, and name characters behind it. -/
theorem Word.exists_cons (word : Word) :
    exists c rest, word.text.toList = c :: rest ∧ isLetter c = true ∧
      forall d, d ∈ rest -> isNameChar d = true := by
  have h := word.isWord
  cases htext : word.text.toList with
  | nil =>
      rw [htext] at h
      cases h
  | cons c rest =>
      rw [htext, Canonical.isWord, Bool.and_eq_true, List.all_eq_true] at h
      exact ⟨c, rest, rfl, h.left, fun d hd => isNameChar_of_isWordChar (h.right d hd)⟩

theorem Word.isNameChar_of_mem (word : Word) : forall c, c ∈ word.text.toList ->
    isNameChar c = true := by
  rcases word.exists_cons with ⟨c, rest, htext, hc, hrest⟩
  rw [htext]
  intro d hd
  rcases List.mem_cons.mp hd with rfl | hd
  · rw [isNameChar, isNameStart_of_isLetter hc, Bool.true_or, Bool.true_or]
  · exact hrest d hd

variable {text : List Char}

theorem Word.split (word : Word) (htext : Name.splitUnit? text = none) :
    Name.split (word.text.toList ++ text) = (word.text.toList, text) :=
  Name.split_append_of_isNameChar word.isNameChar_of_mem htext

/-- A word begins no range, whatever follows it but a plus sign behind the letter `u`. -/
theorem Word.branch (word : Word) {c : Char} {rest : List Char}
    (hword : word.text.toList = c :: rest) (text : List Char) :
    Lexeme.branch c (rest ++ text) = .named := by
  rcases word.exists_cons with ⟨d, more, heq, hletter, hmore⟩
  rw [hword] at heq
  cases heq
  have hstart := isNameStart_of_isLetter hletter
  refine Lexeme.branch_of_startsIdent ?_ ?_ ?_
  · have hhyphen : c ≠ '-' := by
      rintro rfl
      exact absurd hletter (by decide)
    rw [Name.startsIdent_cons hhyphen, hstart, Bool.true_or]
  · rintro rfl
    exact absurd hletter (by decide)
  · intro hu
    cases rest with
    | nil =>
        have htext := congrArg String.ofList hword
        rw [String.ofList_toList] at htext
        rcases hu with rfl | rfl
        · exact absurd htext word.notRange.left
        · exact absurd htext word.notRange.right
    | cons b more =>
        have hplus : b ≠ '+' := by
          rintro rfl
          exact absurd (hmore '+' List.mem_cons_self) (by decide)
        exact Lexeme.startsRange_cons hplus _

/-- A word is read as an identifier where no name goes on. -/
theorem Word.readsBefore_ident (word : Word) (h : EndsWord text) :
    (ofKind (.ident word.text)).ReadsBefore text := by
  rcases word.exists_cons with ⟨c, rest, hword, -, -⟩
  have hsplit := word.split (splitUnit?_eq_none h)
  rw [hword] at hsplit
  refine ⟨c, rest, hword, ?_⟩
  have hname : String.ofList (c :: rest) = word.text := by rw [← hword, String.ofList_toList]
  rw [Lexeme.read_eq_branch, word.branch hword, Lexeme.Branch.read, ← List.cons_append]
  rw [← hname]
  exact Lexeme.named_of_names (.ident hsplit fun hparen => absurd rfl (h '(' hparen).right.right)

/-- The opening of a function that is no address is read in front of any text. -/
theorem FunctionName.readsBefore (name : FunctionName) (text : List Char) :
    (ofKind (.function name.text)).ReadsBefore text := by
  rcases name.exists_cons with ⟨c, rest, hword, -, -⟩
  have hunit : Name.splitUnit? ('(' :: text) = none := rfl
  have hsplit := name.split hunit
  rw [hword] at hsplit
  have hname : String.ofList (c :: rest) = name.text := by rw [← hword, String.ofList_toList]
  refine ⟨c, rest ++ ['('], ?_, ?_⟩
  · rw [text_ofKind]
    change (name.text ++ "(").toList = _
    rw [String.toList_append, hword]
    rfl
  · rw [List.append_assoc, Lexeme.read_eq_branch, name.branch hword, Lexeme.Branch.read,
      ← List.cons_append]
    rw [← hname]
    refine Lexeme.named_of_names (.function hsplit fun hword => ?_)
    rw [hname, name.notAddress] at hword
    cases hword

/-- A word is read behind a number sign where no name goes on. -/
theorem Word.readsBefore_hash (word : Word) (h : EndsWord text) :
    (ofKind (.hash word.text)).ReadsBefore text := by
  rcases word.exists_cons with ⟨c, rest, hword, hc, -⟩
  refine ⟨'#', word.text.toList, ?_, ?_⟩
  · rw [text_ofKind]
    change ("#" ++ word.text).toList = _
    rw [String.toList_append]
    rfl
  · have hunit : (Name.splitUnit? (word.text.toList ++ text)).isSome = true := by
      rw [hword, List.cons_append]
      exact Name.splitUnit?_cons_isSome (isNameStart_of_isLetter hc) _
    have hbranch : Lexeme.branch '#' (word.text.toList ++ text) = .hash := by
      unfold Lexeme.branch
      rw [hunit]
      rfl
    rw [Lexeme.read_eq_branch, hbranch, Lexeme.Branch.read, Lexeme.marked,
      word.split (splitUnit?_eq_none h)]
    simp only [String.ofList_toList]
    rfl

/-- A word is read behind an at sign where no name goes on. -/
theorem Word.readsBefore_atKeyword (word : Word) (h : EndsWord text) :
    (ofKind (.atKeyword word.text)).ReadsBefore text := by
  rcases word.exists_cons with ⟨c, rest, hword, hc, -⟩
  refine ⟨'@', word.text.toList, ?_, ?_⟩
  · rw [text_ofKind]
    change ("@" ++ word.text).toList = _
    rw [String.toList_append]
    rfl
  · have hident : Name.startsIdent (word.text.toList ++ text) = true := by
      have hhyphen : c ≠ '-' := by
        rintro rfl
        exact absurd hc (by decide)
      rw [hword, List.cons_append, Name.startsIdent_cons hhyphen, isNameStart_of_isLetter hc,
        Bool.true_or]
    have hbranch : Lexeme.branch '@' (word.text.toList ++ text) = .atKeyword := by
      unfold Lexeme.branch
      rw [hident]
      rfl
    rw [Lexeme.read_eq_branch, hbranch, Lexeme.Branch.read, Lexeme.marked,
      word.split (splitUnit?_eq_none h)]
    simp only [String.ofList_toList]
    rfl

/-! ## Numbers -/

section Numbers

variable {digits text : List Char}

theorem branch_of_isDigit {c : Char} (hc : isDigit c = true) (rest : List Char) :
    Lexeme.branch c rest = .numeric := by
  have hne : forall d, isDigit d = false -> c ≠ d := by
    rintro d hd rfl
    rw [hc] at hd
    cases hd
  have hspace : isSpace c = false := by
    rw [← Bool.not_eq_true]
    intro hspace
    simp only [isSpace, Bool.or_eq_true, beq_iff_eq] at hspace
    rcases hspace with (((rfl | rfl) | rfl) | rfl) | rfl
    all_goals exact absurd rfl (hne _ (by decide))
  have hquote : isQuote c = false := by
    rw [isQuote, beq_false_of_ne (hne '"' (by decide)), beq_false_of_ne (hne '\'' (by decide))]
    rfl
  have hpunctuation : Lexeme.punctuation? c = none := by
    unfold Lexeme.punctuation?
    split
    case h_10 => rfl
    all_goals exact absurd rfl (hne _ (by decide))
  have hstarts : Numeral.starts (c :: rest) = true := by
    rw [Numeral.starts, Numeral.splitSign, Numeral.not_isSign_of_isDigit hc]
    exact Numeral.startsUnsigned_cons hc rest
  unfold Lexeme.branch
  rw [hspace, hquote, hpunctuation, hstarts, beq_false_of_ne (hne '/' (by decide)),
    beq_false_of_ne (hne '#' (by decide)), beq_false_of_ne (hne '<' (by decide))]
  rfl

theorem splitDigits_digits (hdigits : forall c, c ∈ digits -> isDigit c = true)
    (htext : forall b, b ∈ text.head? -> isDigit b = false) :
    Numeral.splitDigits (digits ++ text) = (digits, text) := by
  have hstop : text.takeWhile isDigit = [] ∧ text.dropWhile isDigit = text := by
    cases text with
    | nil => exact ⟨rfl, rfl⟩
    | cons b rest =>
        have hb := htext b rfl
        exact ⟨List.takeWhile_cons_of_neg (by simp [hb]), List.dropWhile_cons_of_neg (by simp [hb])⟩
  rw [Numeral.splitDigits, List.takeWhile_append_of_pos hdigits,
    List.dropWhile_append_of_pos hdigits, hstop.left, hstop.right, List.append_nil]

theorem splitFraction_of_ne (htext : forall b, b ∈ text.head? -> b ≠ '.') :
    Numeral.splitFraction text = ([], text) := by
  cases text with
  | nil => rfl
  | cons b rest => exact Numeral.splitFraction_cons (htext b rfl) rest

/-- Digits are a numeral in front of a text that begins no fraction and no exponent. -/
theorem split_digits (hne : digits ≠ []) (hdigits : forall c, c ∈ digits -> isDigit c = true)
    (htext : forall b, b ∈ text.head? -> isDigit b = false ∧ b ≠ '.')
    (hexponent : Numeral.splitExponent text = ([], text)) :
    Numeral.split (digits ++ text) = (digits, text) := by
  cases digits with
  | nil => exact absurd rfl hne
  | cons c rest =>
      have hsign : Numeral.splitSign (c :: rest ++ text) = ([], c :: rest ++ text) := by
        rw [List.cons_append, Numeral.splitSign,
          Numeral.not_isSign_of_isDigit (hdigits c List.mem_cons_self)]
        rfl
      have hsplit := splitDigits_digits hdigits fun b hb => (htext b hb).left
      have hfraction := splitFraction_of_ne fun b hb => (htext b hb).right
      simp only [Numeral.split, hsign, hsplit, hfraction, hexponent, List.nil_append,
        List.append_nil]

theorem splitExponent_of_ne (htext : forall b, b ∈ text.head? -> b ≠ 'e' ∧ b ≠ 'E') :
    Numeral.splitExponent text = ([], text) := by
  cases text with
  | nil => rfl
  | cons b rest =>
      rcases htext b rfl with ⟨hlower, hupper⟩
      simp [Numeral.splitExponent, hlower, hupper]

theorem not_isDigit_of_isLetter {c : Char} (h : isLetter c = true) :
    isDigit c = false ∧ isSign c = false := by
  constructor
  · rw [← Bool.not_eq_true]
    intro hdigit
    have hstart := Numeral.not_isNameStart_of_isDigit hdigit
    rw [isNameStart_of_isLetter h] at hstart
    cases hstart
  · rw [← Bool.not_eq_true]
    intro hsign
    simp only [isSign, Bool.or_eq_true, beq_iff_eq] at hsign
    rcases hsign with rfl | rfl <;> exact absurd h (by decide)

theorem startsDigit_splitSign
    (h : forall b, b ∈ text.head? -> isDigit b = false ∧ isSign b = false) :
    Numeral.startsDigit (Numeral.splitSign text).2 = false := by
  cases text with
  | nil => rfl
  | cons b rest =>
      rcases h b rfl with ⟨hdigit, hsign⟩
      rw [Numeral.splitSign, hsign]
      exact hdigit

theorem EndsItem.splitExponent (h : EndsItem text) : Numeral.splitExponent text = ([], text) := by
  refine splitExponent_of_ne fun b hb => ?_
  have hb := (of_mem_itemEnds (h b hb)).right
  exact ⟨hb.right.right.right.left, hb.right.right.right.right.left⟩

/-- A unit of letters has no exponent: no digit and no sign stands behind its first letter. -/
theorem splitExponent_letters {unit : List Char} (hunit : forall c, c ∈ unit -> isLetter c = true)
    (htext : EndsItem text) : Numeral.splitExponent (unit ++ text) = ([], unit ++ text) := by
  cases unit with
  | nil => exact htext.splitExponent
  | cons e rest =>
      have hplain : forall b, b ∈ (rest ++ text).head? -> isDigit b = false ∧ isSign b = false := by
        cases rest with
        | nil =>
            intro b hb
            have h := (of_mem_itemEnds (htext b hb)).right
            exact ⟨h.left, h.right.right.right.right.right.left⟩
        | cons d more =>
            intro b hb
            cases hb
            exact not_isDigit_of_isLetter (hunit d (by simp))
      have hexponent := startsDigit_splitSign hplain
      rw [List.cons_append]
      simp only [Numeral.splitExponent, hexponent, Bool.and_false]
      rfl

theorem not_startsIdent_cons {b : Char} (hname : isNameChar b = false) (hbackslash : b ≠ '\\')
    (rest : List Char) : Name.startsIdent (b :: rest) = false := by
  have hhyphen : b ≠ '-' := by
    rintro rfl
    cases hname
  simp only [isNameChar, Bool.or_eq_false_iff] at hname
  rw [Name.startsIdent_cons hhyphen, Name.startsEscape_cons hbackslash, hname.left.left]
  rfl

theorem EndsItem.not_startsIdent (h : EndsItem text) : Name.startsIdent text = false := by
  cases text with
  | nil => rfl
  | cons b rest =>
      rcases h.endsWord b rfl with ⟨hname, hbackslash, -⟩
      exact not_startsIdent_cons hname hbackslash rest

variable (hne : digits ≠ []) (hdigits : forall c, c ∈ digits -> isDigit c = true)

include hne hdigits

theorem numeric_number (htext : EndsItem text) :
    Lexeme.numeric (digits ++ text) = ⟨.number (String.ofList digits), digits, text⟩ := by
  have hsplit : Numeral.split (digits ++ text) = (digits, text) := by
    refine split_digits hne hdigits (fun b hb => ?_) htext.splitExponent
    have hb := (of_mem_itemEnds (htext b hb)).right
    exact ⟨hb.left, hb.right.left⟩
  simp only [Lexeme.numeric, hsplit, htext.not_startsIdent, if_neg Bool.false_ne_true]
  split
  · exact absurd (htext '%' rfl) (by decide)
  · rfl

theorem numeric_percentage (text : List Char) :
    Lexeme.numeric (digits ++ '%' :: text) =
      ⟨.percentage (String.ofList digits), digits ++ ['%'], text⟩ := by
  have hsplit : Numeral.split (digits ++ '%' :: text) = (digits, '%' :: text) := by
    refine split_digits hne hdigits ?_ ?_
    · intro b hb
      cases hb
      decide
    · refine splitExponent_of_ne ?_
      intro b hb
      cases hb
      decide
  have hident : Name.startsIdent ('%' :: text) = false :=
    not_startsIdent_cons (by decide) (by decide) text
  simp only [Lexeme.numeric, hsplit, hident]
  rfl

theorem numeric_dimension {unit : List Char} (hunit : unit ≠ [])
    (hletters : forall c, c ∈ unit -> isLetter c = true) (htext : EndsItem text) :
    Lexeme.numeric (digits ++ (unit ++ text)) =
      ⟨.dimension (String.ofList digits) (String.ofList unit), digits ++ unit, text⟩ := by
  have hsplit : Numeral.split (digits ++ (unit ++ text)) = (digits, unit ++ text) := by
    refine split_digits hne hdigits ?_ (splitExponent_letters hletters htext)
    cases unit with
    | nil => exact absurd rfl hunit
    | cons e rest =>
        intro b hb
        cases hb
        refine ⟨(not_isDigit_of_isLetter (hletters e List.mem_cons_self)).left, ?_⟩
        rintro rfl
        exact absurd (hletters '.' List.mem_cons_self) (by decide)
  have hident : Name.startsIdent (unit ++ text) = true := by
    cases unit with
    | nil => exact absurd rfl hunit
    | cons e rest =>
        have hletter := hletters e List.mem_cons_self
        have hhyphen : e ≠ '-' := by
          rintro rfl
          exact absurd hletter (by decide)
        rw [List.cons_append, Name.startsIdent_cons hhyphen, isNameStart_of_isLetter hletter,
          Bool.true_or]
  have hname : forall c, c ∈ unit -> isNameChar c = true := by
    intro c hc
    rw [isNameChar, isNameStart_of_isLetter (hletters c hc), Bool.true_or, Bool.true_or]
  simp only [Lexeme.numeric, hsplit, hident, if_true,
    Name.split_append_of_isNameChar hname (splitUnit?_eq_none htext.endsWord)]

end Numbers

theorem Filled.of_mem {p : Char -> Bool} (filled : Filled p) :
    forall c, c ∈ filled.text.toList -> p c = true :=
  List.all_eq_true.mp filled.isFilled

/-- A number is read where a number can be read from its digits. -/
theorem Digits.read (digits : Digits) {rest : List Char} {lexeme : Lexeme} {c : Char}
    {more : List Char} (htext : digits.text.toList = c :: more)
    (h : Lexeme.numeric (c :: rest) = lexeme) : Lexeme.read c rest = .ok lexeme := by
  have hc := digits.of_mem c (htext ▸ List.mem_cons_self)
  rw [Lexeme.read_eq_branch, branch_of_isDigit hc, Lexeme.Branch.read, h]

theorem Digits.readsBefore_number (digits : Digits) {text : List Char} (h : EndsItem text) :
    (ofKind (.number digits.text)).ReadsBefore text := by
  have hnumeric := numeric_number digits.nonempty digits.of_mem h
  cases htext : digits.text.toList with
  | nil => exact absurd htext digits.nonempty
  | cons c more =>
      rw [String.ofList_toList, htext] at hnumeric
      exact ⟨c, more, htext, digits.read htext hnumeric⟩

theorem Digits.readsBefore_percentage (digits : Digits) (text : List Char) :
    (ofKind (.percentage digits.text)).ReadsBefore text := by
  have hnumeric := numeric_percentage digits.nonempty digits.of_mem text
  cases htext : digits.text.toList with
  | nil => exact absurd htext digits.nonempty
  | cons c more =>
      rw [String.ofList_toList, htext] at hnumeric
      refine ⟨c, more ++ ['%'], ?_, digits.read htext ?_⟩
      · rw [text_ofKind]
        change (digits.text ++ "%").toList = _
        rw [String.toList_append, htext]
        rfl
      · rw [List.append_assoc]
        exact hnumeric

theorem Digits.readsBefore_dimension (digits : Digits) (unit : Letters) {text : List Char}
    (h : EndsItem text) : (ofKind (.dimension digits.text unit.text)).ReadsBefore text := by
  have hnumeric := numeric_dimension digits.nonempty digits.of_mem unit.nonempty unit.of_mem h
  cases htext : digits.text.toList with
  | nil => exact absurd htext digits.nonempty
  | cons c more =>
      rw [String.ofList_toList, String.ofList_toList, htext] at hnumeric
      refine ⟨c, more ++ unit.text.toList, ?_, digits.read htext ?_⟩
      · rw [text_ofKind]
        change (digits.text ++ unit.text).toList = _
        rw [String.toList_append, htext]
        rfl
      · rw [List.append_assoc]
        exact hnumeric

end Canonical
end Stylesheet
