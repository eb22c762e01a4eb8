import Mathlib.Computability.Language
import Stylesheet.Proofs.Token.Extension.Name
import Stylesheet.Token.Lexeme

/-!
# The languages of numerals and names

What a token holds belongs to a language that is built from characters by concatenation, choice
and repetition.  The readers are loops over the same characters, and none of them looks at these
languages.  Main statements: the numeral at the front of a text is a word of the language of
numerals and leaves no digit behind, the name at the front of a text is a word of the language of
names, and a text begins with a unit of names or with an identifier where the readers say so.
-/

namespace Stylesheet
namespace Lexical

open Character
open scoped Computability

/-! ## Languages -/

/-- One character that passes a test. -/
def one (p : Char -> Bool) : Language Char :=
  {text | exists c, p c = true ∧ text = [c]}

/-- One character. -/
def mark (c : Char) : Language Char :=
  one (· == c)

def optional (L : Language Char) : Language Char :=
  1 + L

/-- One to six characters that pass a test. -/
def upToSix (p : Char -> Bool) : Language Char :=
  {text | text ≠ [] ∧ text.length ≤ 6 ∧ forall c, c ∈ text -> p c = true}

def digits : Language Char :=
  one isDigit * (one isDigit)∗

def fraction : Language Char :=
  mark '.' * digits

def exponent : Language Char :=
  (mark 'e' + mark 'E') * (optional (one isSign) * digits)

/-- The value of a number, of a percentage or of a dimension. -/
def numeral : Language Char :=
  optional (one isSign) * ((digits * optional fraction + fraction) * optional exponent)

/-- A backslash before a character, or before the number of one and a space that ends it. -/
def escape : Language Char :=
  mark '\\' * (one (fun c => c != '\n' && !isHexDigit c) +
    upToSix isHexDigit * optional (one isSpace))

def unit : Language Char :=
  one isNameChar + escape

def name : Language Char :=
  unit * unit∗

def nameStart : Language Char :=
  one isNameStart + escape

def identifierStart : Language Char :=
  nameStart + mark '-' * (nameStart + mark '-')

def identifier : Language Char :=
  identifierStart * unit∗

/-- What stands between the quotes of a string. -/
def piece (quote : Char) : Language Char :=
  one (fun c => c != quote && c != '\\' && c != '\n') + mark '\\' * one fun _ => true

def quoted (quote : Char) : Language Char :=
  mark quote * ((piece quote)∗ * mark quote)

def string : Language Char :=
  quoted '"' + quoted '\''

def unicodeRange : Language Char :=
  (mark 'u' + mark 'U') * (mark '+' * (upToSix Lexeme.isRangeDigit *
    optional (mark '-' * upToSix isHexDigit)))

/-- A text that begins with a word of a language. -/
def Begins (L : Language Char) (text : List Char) : Prop :=
  exists front, front ∈ L ∧ front <+: text

section Languages

variable {L M : Language Char} {p : Char -> Bool} {c : Char} {text front back : List Char}

theorem singleton_mem_one (h : p c = true) : [c] ∈ one p :=
  ⟨c, h, rfl⟩

theorem singleton_mem_mark (c : Char) : [c] ∈ mark c :=
  singleton_mem_one (beq_self_eq_true c)

theorem cons_mem_one_mul (h : p c = true) (htext : text ∈ L) : c :: text ∈ one p * L :=
  Language.append_mem_mul (singleton_mem_one h) htext

theorem cons_mem_mark_mul (htext : text ∈ L) : c :: text ∈ mark c * L :=
  cons_mem_one_mul (beq_self_eq_true c) htext

theorem nil_mem_optional (L : Language Char) : [] ∈ optional L :=
  Or.inl rfl

theorem mem_optional (h : text ∈ L) : text ∈ optional L :=
  Or.inr h

theorem append_mem_kstar (hfront : front ∈ L) (hback : back ∈ L∗) : front ++ back ∈ L∗ := by
  rw [← Language.one_add_self_mul_kstar_eq_kstar]
  exact Or.inr (Language.append_mem_mul hfront hback)

theorem append_mem_kstar_mul (hfront : front ∈ L) (hback : back ∈ L∗ * M) :
    front ++ back ∈ L∗ * M := by
  rcases Language.mem_mul.mp hback with ⟨more, hmore, last, hlast, rfl⟩
  rw [← List.append_assoc]
  exact Language.append_mem_mul (append_mem_kstar hfront hmore) hlast

theorem mem_kstar_one (h : forall c, c ∈ text -> p c = true) : text ∈ (one p)∗ := by
  induction text with
  | nil => exact Language.nil_mem_kstar _
  | cons c rest ih =>
      have hrest := ih fun d hd => h d (List.mem_cons_of_mem c hd)
      exact append_mem_kstar (singleton_mem_one (h c List.mem_cons_self)) hrest

theorem begins_one : Begins (one p) text <-> text.head?.any p = true := by
  constructor
  · rintro ⟨front, ⟨c, hc, rfl⟩, rest, rfl⟩
    exact hc
  · intro h
    cases text with
    | nil => cases h
    | cons c rest => exact ⟨[c], singleton_mem_one h, rest, rfl⟩

theorem begins_mark : Begins (mark c) text <-> text.head? = some c := by
  rw [mark, begins_one]
  cases text <;> simp

theorem begins_add : Begins (L + M) text <-> Begins L text ∨ Begins M text := by
  constructor
  · rintro ⟨front, hfront | hfront, hprefix⟩
    · exact Or.inl ⟨front, hfront, hprefix⟩
    · exact Or.inr ⟨front, hfront, hprefix⟩
  · rintro (⟨front, hfront, hprefix⟩ | ⟨front, hfront, hprefix⟩)
    · exact ⟨front, Or.inl hfront, hprefix⟩
    · exact ⟨front, Or.inr hfront, hprefix⟩

theorem begins_one_mul :
    Begins (one p * L) text <-> exists c rest, text = c :: rest ∧ p c = true ∧ Begins L rest := by
  constructor
  · rintro ⟨front, hfront, more, rfl⟩
    rcases Language.mem_mul.mp hfront with ⟨_, ⟨c, hc, rfl⟩, back, hback, rfl⟩
    exact ⟨c, back ++ more, rfl, hc, back, hback, more, rfl⟩
  · rintro ⟨c, rest, rfl, hc, back, hback, more, rfl⟩
    exact ⟨c :: back, cons_mem_one_mul hc hback, more, rfl⟩

theorem begins_mark_mul :
    Begins (mark c * L) text <-> exists rest, text = c :: rest ∧ Begins L rest := by
  rw [mark, begins_one_mul]
  constructor
  · rintro ⟨d, rest, rfl, hd, hrest⟩
    rw [beq_iff_eq] at hd
    exact ⟨rest, by rw [hd], hrest⟩
  · rintro ⟨rest, rfl, hrest⟩
    exact ⟨c, rest, rfl, beq_self_eq_true c, hrest⟩

theorem takeWhile_mem_upToSix (h : text.head?.any p = true) :
    (Lexeme.splitUpToSix p text).1 ∈ upToSix p := by
  cases text with
  | nil => cases h
  | cons c rest =>
      have hc : p c = true := h
      refine ⟨?_, ?_, fun d hd => List.mem_takeWhile_imp hd⟩
      · simp [Lexeme.splitUpToSix, hc]
      · have hle := (List.takeWhile_sublist p (l := (c :: rest).take 6)).length_le
        exact hle.trans (List.length_take_le 6 _)

end Languages

end Lexical

/-! ## Numerals -/

namespace Numeral

open Character Lexical

variable {text : List Char}

theorem splitDigits_mem (h : startsDigit text = true) : (splitDigits text).1 ∈ digits := by
  cases text with
  | nil => cases h
  | cons c rest =>
      have hc : isDigit c = true := h
      rw [splitDigits, List.takeWhile_cons_of_pos hc]
      exact cons_mem_one_mul hc (mem_kstar_one fun d hd => List.mem_takeWhile_imp hd)

theorem splitDigits_eq_nil (h : startsDigit text = false) : splitDigits text = ([], text) := by
  cases text with
  | nil => rfl
  | cons c rest =>
      have hc : ¬ isDigit c = true := Bool.not_eq_true _ ▸ h
      rw [splitDigits, List.takeWhile_cons_of_neg hc, List.dropWhile_cons_of_neg hc]

theorem splitSign_mem (text : List Char) : (splitSign text).1 ∈ optional (one isSign) := by
  unfold splitSign
  split
  · split
    · exact mem_optional (singleton_mem_one ‹_›)
    · exact nil_mem_optional _
  · exact nil_mem_optional _

theorem splitFraction_point {rest : List Char} (h : startsDigit rest = true) :
    (splitFraction ('.' :: rest)).1 ∈ fraction := by
  cases rest with
  | nil => cases h
  | cons d rest =>
      have hd : isDigit d = true := h
      rw [splitFraction, if_pos hd]
      exact cons_mem_mark_mul (splitDigits_mem h)

theorem splitFraction_mem (text : List Char) : (splitFraction text).1 ∈ optional fraction := by
  unfold splitFraction
  split
  · split
    · exact mem_optional (cons_mem_mark_mul (splitDigits_mem ‹_›))
    · exact nil_mem_optional _
  · exact nil_mem_optional _

theorem splitExponent_mem (text : List Char) : (splitExponent text).1 ∈ optional exponent := by
  cases text with
  | nil => exact nil_mem_optional _
  | cons c rest =>
      simp only [splitExponent]
      split
      · rename_i h
        rw [Bool.and_eq_true, Bool.or_eq_true, beq_iff_eq, beq_iff_eq] at h
        rcases h with ⟨hletter, hdigit⟩
        have hback := Language.append_mem_mul (splitSign_mem rest) (splitDigits_mem hdigit)
        refine mem_optional (Language.append_mem_mul (a := [c]) ?_ hback)
        rcases hletter with rfl | rfl
        · exact Or.inl (singleton_mem_mark 'e')
        · exact Or.inr (singleton_mem_mark 'E')
      · exact nil_mem_optional _

theorem split_mem (h : starts text = true) : (split text).1 ∈ numeral := by
  simp only [split, List.append_assoc]
  refine Language.append_mem_mul (splitSign_mem text) ?_
  rw [← List.append_assoc]
  refine Language.append_mem_mul ?_ (splitExponent_mem _)
  by_cases hdigit : startsDigit (splitSign text).2 = true
  · exact Or.inl (Language.append_mem_mul (splitDigits_mem hdigit) (splitFraction_mem _))
  · rw [Bool.not_eq_true] at hdigit
    rw [splitDigits_eq_nil hdigit, List.nil_append]
    rw [starts] at h
    generalize (splitSign text).2 = unsigned at *
    unfold startsUnsigned at h
    split at h
    · exact Or.inr (splitFraction_point h)
    · rw [hdigit] at h
      cases h

/-! ### No digit is left behind a numeral -/

theorem not_startsDigit_splitDigits (text : List Char) :
    startsDigit (splitDigits text).2 = false := by
  rw [splitDigits]
  cases hrest : text.dropWhile isDigit with
  | nil => rfl
  | cons c rest =>
      have hhead : (text.dropWhile isDigit).head? = some c := by rw [hrest, List.head?_cons]
      have hnot := List.head?_dropWhile_not isDigit text
      rw [hhead] at hnot
      exact hnot

theorem not_startsDigit_splitFraction (h : startsDigit text = false) :
    startsDigit (splitFraction text).2 = false := by
  unfold splitFraction
  split
  · split
    · exact not_startsDigit_splitDigits _
    · rfl
  · exact h

theorem not_startsDigit_splitExponent (h : startsDigit text = false) :
    startsDigit (splitExponent text).2 = false := by
  cases text with
  | nil => rfl
  | cons c rest =>
      simp only [splitExponent]
      split
      · exact not_startsDigit_splitDigits _
      · exact h

theorem not_startsDigit_split (text : List Char) : startsDigit (split text).2 = false :=
  not_startsDigit_splitExponent (not_startsDigit_splitFraction (not_startsDigit_splitDigits _))

end Numeral

/-! ## Names -/

namespace Name

open Character Lexical
open scoped Computability

variable {text : List Char}

theorem cons_mem_escape {d : Char} (hd : d ≠ '\n') (hhex : isHexDigit d = false) :
    ['\\', d] ∈ escape := by
  refine cons_mem_mark_mul (Or.inl (singleton_mem_one ?_))
  simp [hd, hhex]

theorem splitSpace_mem (text : List Char) : (splitSpace text).1 ∈ optional (one isSpace) := by
  unfold splitSpace
  split
  · split
    · exact mem_optional (singleton_mem_one ‹_›)
    · exact nil_mem_optional _
  · exact nil_mem_optional _

theorem splitHexTail_mem {d : Char} (h : isHexDigit d = true) (text : List Char) :
    '\\' :: d :: (splitHexTail text).1 ∈ escape := by
  refine cons_mem_mark_mul (Or.inr ?_)
  rw [splitHexTail, ← List.cons_append]
  refine Language.append_mem_mul ⟨List.cons_ne_nil d _, ?_, ?_⟩ (splitSpace_mem _)
  · have hle := (List.takeWhile_sublist isHexDigit (l := text.take 5)).length_le
    exact Nat.succ_le_succ (hle.trans (List.length_take_le 5 _))
  · intro c hc
    rcases List.mem_cons.mp hc with rfl | hc
    · exact h
    · exact List.mem_takeWhile_imp hc

theorem splitUnit?_mem {front rest : List Char} (h : splitUnit? text = some (front, rest)) :
    front ∈ unit := by
  unfold splitUnit? at h
  split at h
  · cases h
  · split at h
    · cases h
      exact Or.inl (singleton_mem_one ‹_›)
    · split at h
      · split at h
        · cases h
        · rename_i d more _ hfeed
          rw [beq_iff_eq] at hfeed
          split at h
          · cases h
            exact Or.inr (splitHexTail_mem ‹_› more)
          · rename_i hhex
            cases h
            exact Or.inr (cons_mem_escape hfeed (Bool.not_eq_true _ ▸ hhex))
      · cases h

theorem split_mem_kstar (text : List Char) : (split text).1 ∈ unit∗ := by
  fun_induction split text with
  | case1 text hnone => exact Language.nil_mem_kstar _
  | case2 text front rest hunit name after hrest ih =>
      rw [hrest] at ih
      exact append_mem_kstar (splitUnit?_mem hunit) ih

theorem split_of_splitUnit? {front rest : List Char} (h : splitUnit? text = some (front, rest)) :
    (split text).1 = front ++ (split rest).1 := by
  rw [split]
  split
  · rename_i hnone
    rw [h] at hnone
    cases hnone
  · rename_i hsome
    rw [h] at hsome
    cases hsome
    rfl

theorem split_mem_name (h : (splitUnit? text).isSome = true) : (split text).1 ∈ name := by
  rcases Option.isSome_iff_exists.mp h with ⟨⟨front, rest⟩, hunit⟩
  rw [split_of_splitUnit? hunit]
  exact Language.append_mem_mul (splitUnit?_mem hunit) (split_mem_kstar rest)

/-- What a name begins with is the first unit of the name. -/
theorem exists_split_start (h : (text.head?.any isNameStart || startsEscape text) = true) :
    exists front rest, front ∈ nameStart ∧ (split text).1 = front ++ (split rest).1 := by
  have hsome : (splitUnit? text).isSome = true := by
    rw [splitUnit?_isSome, Bool.or_eq_true]
    rw [Bool.or_eq_true] at h
    refine h.imp_left ?_
    cases text with
    | nil => exact id
    | cons c rest =>
        intro hc
        rw [List.head?_cons, Option.any_some] at hc ⊢
        rw [isNameChar, hc, Bool.true_or, Bool.true_or]
  rcases Option.isSome_iff_exists.mp hsome with ⟨⟨front, rest⟩, hunit⟩
  refine ⟨front, rest, ?_, split_of_splitUnit? hunit⟩
  rcases splitUnit?_mem hunit with ⟨c, hc, rfl⟩ | hescape
  · have hbackslash : c ≠ '\\' := by
      rintro rfl
      cases hc
    rw [← (splitUnit?_eq_some hunit).1, List.singleton_append, startsEscape_cons hbackslash,
      Bool.or_false] at h
    exact Or.inl (singleton_mem_one h)
  · exact Or.inr hescape

theorem split_mem_identifier (h : startsIdent text = true) : (split text).1 ∈ identifier := by
  unfold startsIdent at h
  split at h
  · rename_i c rest
    rw [Bool.or_right_comm, Bool.or_eq_true, beq_iff_eq] at h
    have hhyphen : splitUnit? ('-' :: c :: rest) = some (['-'], c :: rest) := rfl
    rw [split_of_splitUnit? hhyphen]
    rcases h with hstart | rfl
    · rcases @exists_split_start (c :: rest) hstart with ⟨front, more, hfront, hsplit⟩
      rw [hsplit, ← List.append_assoc]
      refine Language.append_mem_mul (Or.inr ?_) (split_mem_kstar more)
      exact cons_mem_mark_mul (Or.inl hfront)
    · have hagain : splitUnit? ('-' :: rest) = some (['-'], rest) := rfl
      rw [split_of_splitUnit? hagain, ← List.append_assoc]
      refine Language.append_mem_mul (Or.inr ?_) (split_mem_kstar rest)
      exact cons_mem_mark_mul (Or.inr (singleton_mem_mark '-'))
  · rename_i c rest _
    rcases @exists_split_start (c :: rest) h with ⟨front, more, hfront, hsplit⟩
    rw [hsplit]
    exact Language.append_mem_mul (Or.inl hfront) (split_mem_kstar more)
  · cases h

/-! ### What begins like a name -/

theorem begins_escape : Begins escape text <-> startsEscape text = true := by
  rw [escape, begins_mark_mul]
  constructor
  · rintro ⟨rest, rfl, hrest⟩
    rw [begins_add, begins_one] at hrest
    cases rest with
    | nil =>
        rcases hrest with hrest | ⟨front, hfront, hprefix⟩
        · cases hrest
        · rcases Language.mem_mul.mp hfront with ⟨number, ⟨hne, _⟩, space, _, rfl⟩
          exact absurd (List.append_eq_nil_iff.mp (List.prefix_nil.mp hprefix)).1 hne
    | cons d rest =>
        rw [startsEscape, bne_iff_ne]
        rintro rfl
        rcases hrest with hrest | ⟨front, hfront, more, hprefix⟩
        · cases hrest
        · rcases Language.mem_mul.mp hfront with ⟨number, ⟨hne, _, hhex⟩, space, _, rfl⟩
          cases number with
          | nil => exact hne rfl
          | cons e number =>
              rw [(List.cons.inj hprefix).1] at hhex
              cases hhex '\n' List.mem_cons_self
  · intro h
    unfold startsEscape at h
    split at h
    · rename_i d rest
      rw [bne_iff_ne] at h
      refine ⟨d :: rest, rfl, [d], ?_, rest, rfl⟩
      by_cases hhex : isHexDigit d = true
      · refine Or.inr (Language.append_mem_mul (a := [d]) (b := []) ?_ (nil_mem_optional _))
        refine ⟨List.cons_ne_nil d [], Nat.le_add_left 1 5, ?_⟩
        intro c hc
        rw [List.mem_singleton.mp hc]
        exact hhex
      · refine Or.inl (singleton_mem_one ?_)
        simp [h, hhex]
    · cases h

theorem begins_unit : Begins unit text <-> (splitUnit? text).isSome = true := by
  rw [unit, begins_add, begins_one, begins_escape, splitUnit?_isSome, Bool.or_eq_true]

theorem begins_nameStart :
    Begins nameStart text <-> (text.head?.any isNameStart || startsEscape text) = true := by
  rw [nameStart, begins_add, begins_one, begins_escape, Bool.or_eq_true]

theorem startsIdent_of_begins (h : Begins identifierStart text) : startsIdent text = true := by
  rw [identifierStart, begins_add, begins_mark_mul, begins_nameStart] at h
  rcases h with hstart | ⟨rest, rfl, hrest⟩
  · cases text with
    | nil => cases hstart
    | cons c rest =>
        have hhyphen : c ≠ '-' := by
          rintro rfl
          cases hstart
        rw [startsIdent_cons hhyphen]
        exact hstart
  · rw [begins_add, begins_mark, begins_nameStart] at hrest
    cases rest with
    | nil => rcases hrest with hrest | hrest <;> cases hrest
    | cons c rest =>
        rw [startsIdent, Bool.or_right_comm, Bool.or_eq_true, beq_iff_eq]
        refine hrest.imp id ?_
        intro hc
        exact Option.some.inj hc

end Name

end Stylesheet
