import Stylesheet.Proofs.Text.Place
import Stylesheet.Proofs.Token.Marks
import Stylesheet.Proofs.Token.Unclosed

/-!
# Sources that have no tokens

A source is read lexeme after lexeme until one of them is not closed.  Main statement: a source has
no tokens exactly when reading comes to a quote, a comment or an unquoted address that stays open,
or to an address that is broken by spaces, and the error says which of them and where.
-/

namespace Stylesheet
namespace Lexeme

open Character

/-! ## Failures -/

/-- What opens an unquoted address: its word, and spaces in front of anything but a quote. -/
structure OpensAddress (word spaces content : List Char) : Prop where
  word : sameWord (String.ofList word) "url" = true
  spaces : forall c, c ∈ spaces -> isSpace c = true
  content : forall c, c ∈ content.head? -> isSpace c = false ∧ isQuote c = false

/--
A text begins with something that is not closed: the message, and how much of the text stands
before the place to report.
-/
inductive Fails : List Char -> String -> List Char -> Prop
  | string {quote : Char} {text : List Char} (hquote : isQuote quote = true)
      (hopen : IsOpenString quote text) : Fails (quote :: text) "Unterminated string" []
  | comment {text : List Char} (hopen : ¬ ['*', '/'] <:+: text) :
      Fails ('/' :: '*' :: text) "Unterminated comment" []
  | address {word spaces content : List Char} (h : OpensAddress word spaces content)
      (hopen : IsOpenAddress content)
      (hunbroken : forall front run, ¬ IsBrokenBy content front run) :
      Fails (word ++ '(' :: (spaces ++ content)) "Unterminated url" []
  | space {word spaces content front run : List Char} (h : OpensAddress word spaces content)
      (hbroken : IsBrokenBy content front run) :
      Fails (word ++ '(' :: (spaces ++ content)) "Unexpected whitespace in url"
        (word ++ '(' :: (spaces ++ (front ++ run)))

/-! ## Addresses -/

theorem isNameStart_of_toLower {c : Char} (h : isLetter c.toLower = true) :
    isNameStart c = true := by
  unfold Char.toLower at h
  split at h
  · rename_i hupper
    have hletter : isLetter c = true := by
      simp only [isLetter, Bool.or_eq_true, Bool.and_eq_true, decide_eq_true_eq]
      exact Or.inr hupper
    rw [isNameStart, hletter, Bool.true_or, Bool.true_or]
  · rw [isNameStart, h, Bool.true_or, Bool.true_or]

/-- The word of an address is three letters. -/
theorem exists_letters_of_sameWord {word : List Char}
    (h : sameWord (String.ofList word) "url" = true) :
    exists a b c, word = [a, b, c] ∧ isNameStart a = true ∧ isNameStart b = true ∧
      isNameStart c = true := by
  have hletter : forall {c d : Char}, c.toLower = d -> isLetter d = true ->
      isNameStart c = true := by
    rintro c d rfl hd
    exact isNameStart_of_toLower hd
  rcases List.map_eq_cons_iff.mp (map_toLower_of_sameWord h) with ⟨a, _, rfl, ha, hrest⟩
  rcases List.map_eq_cons_iff.mp hrest with ⟨b, _, rfl, hb, hrest⟩
  rcases List.map_eq_cons_iff.mp hrest with ⟨c, _, rfl, hc, hrest⟩
  rw [List.map_eq_nil_iff] at hrest
  subst hrest
  exact ⟨a, b, c, rfl, hletter ha (by decide), hletter hb (by decide), hletter hc (by decide)⟩

section Addresses

variable {word spaces content text : List Char} {failure : LexFailure}

theorem OpensAddress.takeWhile_eq (h : OpensAddress word spaces content) :
    (spaces ++ content).takeWhile isSpace = spaces := by
  rw [List.takeWhile_append_of_pos h.spaces]
  cases content with
  | nil => exact List.append_nil spaces
  | cons c rest =>
      rw [List.takeWhile_cons_of_neg (ne_true_of_eq_false (h.content c rfl).left),
        List.append_nil]

theorem OpensAddress.dropWhile_eq (h : OpensAddress word spaces content) :
    (spaces ++ content).dropWhile isSpace = content := by
  rw [List.dropWhile_append_of_pos h.spaces]
  cases content with
  | nil => rfl
  | cons c rest => exact List.dropWhile_cons_of_neg (ne_true_of_eq_false (h.content c rfl).left)

theorem OpensAddress.not_startsQuotedAddress (h : OpensAddress word spaces content) :
    startsQuotedAddress (spaces ++ content) = false := by
  unfold startsQuotedAddress
  rw [h.dropWhile_eq]
  cases content with
  | nil => rfl
  | cons c rest => exact (h.content c rfl).right

theorem OpensAddress.split_eq (h : OpensAddress word spaces content) :
    Name.split (word ++ '(' :: (spaces ++ content)) = (word, '(' :: (spaces ++ content)) := by
  rcases exists_letters_of_sameWord h.word with ⟨a, b, c, rfl, ha, hb, hc⟩
  refine Name.split_append_of_isNameChar ?_ rfl
  intro d hd
  have hstart : isNameStart d = true := by
    simp only [List.mem_cons, List.not_mem_nil, or_false] at hd
    rcases hd with rfl | rfl | rfl
    · exact ha
    · exact hb
    · exact hc
  rw [isNameChar, hstart, Bool.true_or, Bool.true_or]

/-- An opening and the address behind it; where spaces break it is counted from the opening on. -/
def openedAddress (opening : List Char) : Except LexFailure Address -> Except LexFailure Lexeme
  | .ok address =>
      .ok ⟨.url (String.ofList address.content),
        opening ++ address.content ++ address.spaces ++ [')'], address.rest⟩
  | .error ⟨.spaceInUrl, read⟩ => .error ⟨.spaceInUrl, opening ++ read⟩
  | .error failure => .error failure

theorem OpensAddress.named_eq (h : OpensAddress word spaces content) :
    named (word ++ '(' :: (spaces ++ content)) =
      openedAddress (word ++ ['('] ++ spaces) (splitAddress content) := by
  simp only [named, h.split_eq, h.word, h.not_startsQuotedAddress, Bool.not_false, Bool.and_self,
    if_true, h.takeWhile_eq, h.dropWhile_eq]
  cases splitAddress content with
  | ok address => rfl
  | error failure =>
      rcases failure with ⟨fault, read⟩
      cases fault <;> rfl

theorem OpensAddress.read_eq (h : OpensAddress word spaces content) :
    exists c rest, word ++ '(' :: (spaces ++ content) = c :: rest ∧
      read c rest = named (c :: rest) := by
  rcases exists_letters_of_sameWord h.word with ⟨a, b, c, rfl, ha, hb, hc⟩
  refine ⟨a, b :: c :: '(' :: (spaces ++ content), rfl, ?_⟩
  have hhyphen : a ≠ '-' := by
    rintro rfl
    cases ha
  have hident : Name.startsIdent (a :: b :: c :: '(' :: (spaces ++ content)) = true := by
    rw [Name.startsIdent_cons hhyphen, ha, Bool.true_or]
  have hrange : startsRange (b :: c :: '(' :: (spaces ++ content)) = false := by
    unfold startsRange
    split
    · rename_i heq
      injection heq with hplus
      subst hplus
      cases hb
    · rfl
  rw [read_eq_branch, branch_of_startsIdent hident (fun heq => absurd heq hhyphen) fun _ => hrange]
  rfl

theorem opensAddress_of_split {arguments : List Char}
    (hword : sameWord (String.ofList word) "url" = true)
    (hquoted : startsQuotedAddress arguments = false) :
    OpensAddress word (arguments.takeWhile isSpace) (arguments.dropWhile isSpace) where
  word := hword
  spaces := fun _ => List.mem_takeWhile_imp
  content := by
    intro c hc
    have hspace := List.head?_dropWhile_not isSpace arguments
    rw [hc] at hspace
    unfold startsQuotedAddress at hquoted
    rcases List.head?_eq_some_iff.mp hc with ⟨rest, hrest⟩
    rw [hrest] at hquoted
    exact ⟨hspace, hquoted⟩

/-- Of what begins with a name only an unquoted address fails. -/
theorem exists_opensAddress_of_named (h : named text = .error failure) :
    exists word spaces content, text = word ++ '(' :: (spaces ++ content) ∧
      OpensAddress word spaces content := by
  cases hsplit : Name.split text with
  | mk word rest =>
      have htext := Name.split_append text
      rw [hsplit] at htext
      simp only [named, hsplit] at h
      split at h
      · rename_i rest arguments
        split at h
        · rename_i hopens
          rw [Bool.and_eq_true, Bool.not_eq_true'] at hopens
          refine ⟨word, _, _, ?_, opensAddress_of_split hopens.left hopens.right⟩
          rw [List.takeWhile_append_dropWhile]
          exact htext.symm
        · cases h
      · cases h

theorem fails_of_named (h : named text = .error failure) :
    Fails text failure.fault.text failure.read := by
  rcases exists_opensAddress_of_named h with ⟨word, spaces, content, rfl, hopens⟩
  rw [hopens.named_eq] at h
  cases hread : splitAddress content with
  | ok address =>
      rw [hread] at h
      cases h
  | error inner =>
      rw [hread] at h
      rcases splitAddress_eq_error_iff.mp hread with ⟨hplain, rfl⟩ | ⟨front, run, hbroken, rfl⟩
      · cases h
        rcases isPlain_iff.mp hplain with ⟨hopen, hunbroken⟩
        exact Fails.address hopens hopen hunbroken
      · cases h
        have hspace := Fails.space hopens hbroken
        rw [List.append_assoc, List.append_assoc]
        exact hspace

end Addresses

/-! ## Lexemes -/

variable {c : Char} {rest text read : List Char} {failure : LexFailure} {message : String}

theorem read_slash_star (text : List Char) :
    Lexeme.read '/' ('*' :: text) =
      match splitComment? text with
      | some (content, after) =>
          .ok ⟨.comment (String.ofList content), '/' :: '*' :: content ++ ['*', '/'], after⟩
      | none => .error ⟨.unterminatedComment, []⟩ :=
  rfl

theorem read_quote (h : isQuote c = true) (rest : List Char) :
    Lexeme.read c rest =
      match splitString? c rest with
      | some (body, after) => .ok ⟨.string (String.ofList (c :: body)), c :: body, after⟩
      | none => .error ⟨.unterminatedString, []⟩ := by
  rw [isQuote, Bool.or_eq_true, beq_iff_eq, beq_iff_eq] at h
  rcases h with rfl | rfl
  · rfl
  · rfl

/-- Only comments, strings and what begins with a name can fail. -/
theorem read_eq_error_cases (h : Lexeme.read c rest = .error failure) :
    (c = '/' ∧ exists behind, rest = '*' :: behind) ∨ isQuote c = true ∨
      named (c :: rest) = .error failure := by
  have htest := test_branch c rest
  rw [read_eq_branch] at h
  cases hbranch : branch c rest with
  | comment =>
      rw [hbranch, Branch.test, Bool.and_eq_true, beq_iff_eq, List.isPrefixOf_iff_prefix] at htest
      exact Or.inl ⟨htest.left, htest.right.imp fun _ heq => heq.symm⟩
  | string =>
      rw [hbranch] at htest
      exact Or.inr (Or.inl htest)
  | named =>
      rw [hbranch] at h
      exact Or.inr (Or.inr h)
  | _ =>
      rw [hbranch] at h
      cases h

theorem fails_of_read (h : Lexeme.read c rest = .error failure) :
    Fails (c :: rest) failure.fault.text failure.read := by
  rcases read_eq_error_cases h with ⟨rfl, text, rfl⟩ | hquote | hnamed
  · rw [read_slash_star] at h
    cases hsplit : splitComment? text with
    | some pair =>
        rw [hsplit] at h
        cases h
    | none =>
        rw [hsplit] at h
        cases h
        exact Fails.comment ((splitComment?_eq_none_iff text).mp hsplit)
  · rw [read_quote hquote] at h
    cases hsplit : splitString? c rest with
    | some pair =>
        rw [hsplit] at h
        cases h
    | none =>
        rw [hsplit] at h
        cases h
        exact Fails.string hquote ((splitString?_eq_none_iff hquote rest).mp hsplit)
  · exact fails_of_named hnamed

theorem exists_read_of_fails (h : Fails text message read) :
    exists c rest failure, text = c :: rest ∧ Lexeme.read c rest = .error failure ∧
      failure.fault.text = message ∧ failure.read = read := by
  cases h with
  | @string quote text hquote hopen =>
      refine ⟨quote, text, ⟨.unterminatedString, []⟩, rfl, ?_, rfl, rfl⟩
      rw [read_quote hquote, (splitString?_eq_none_iff hquote text).mpr hopen]
  | @comment text hopen =>
      refine ⟨'/', '*' :: text, ⟨.unterminatedComment, []⟩, rfl, ?_, rfl, rfl⟩
      rw [read_slash_star, (splitComment?_eq_none_iff text).mpr hopen]
  | address hopens hopen hunbroken =>
      rcases hopens.read_eq with ⟨c, rest, htext, hread⟩
      refine ⟨c, rest, ⟨.unterminatedUrl, []⟩, htext, ?_, rfl, rfl⟩
      rw [hread, ← htext, hopens.named_eq,
        splitAddress_of_isPlain (isPlain_iff.mpr ⟨hopen, hunbroken⟩)]
      rfl
  | @space word spaces content front run hopens hbroken =>
      rcases hopens.read_eq with ⟨c, rest, htext, hread⟩
      have hfailed := splitAddress_eq_error_iff.mpr (Or.inr ⟨front, run, hbroken, rfl⟩)
      refine ⟨c, rest, ⟨.spaceInUrl, word ++ '(' :: (spaces ++ (front ++ run))⟩, htext, ?_, rfl,
        rfl⟩
      rw [hread, ← htext, hopens.named_eq, hfailed, openedAddress, List.append_assoc,
        List.append_assoc]
      rfl

end Lexeme

theorem LexFault.text_injective {left right : LexFault} (h : left.text = right.text) :
    left = right := by
  revert h
  cases left <;> cases right <;> decide

namespace Token

/-- The starts of tokens that reading a text comes to, between what is read and what is not. -/
inductive Reaches : List Char -> List Char -> List Char -> Prop
  | here (text : List Char) : Reaches text [] text
  | step {c : Char} {rest front back : List Char} {lexeme : Lexeme}
      (hread : Lexeme.read c rest = .ok lexeme) (h : Reaches lexeme.rest front back) :
      Reaches (c :: rest) (lexeme.text ++ front) back

open Lexeme (Fails)

theorem Reaches.append_eq {text front back : List Char} (h : Reaches text front back) :
    front ++ back = text := by
  induction h with
  | here text => rfl
  | step hread h ih => rw [List.append_assoc, ih, Lexeme.read_append hread]

variable {position : Position} {text : List Char} {error : LexError}

theorem exists_reaches_of_scanFrom (h : scanFrom position text = .error error) :
    exists front back read, Reaches text front back ∧ Fails back error.fault.text read ∧
      error.position = position.after (front ++ read) := by
  fun_induction scanFrom position text with
  | case1 => cases h
  | case2 position c rest failure hread =>
      cases h
      exact ⟨[], c :: rest, failure.read, Reaches.here _, Lexeme.fails_of_read hread, rfl⟩
  | case3 position c rest lexeme hread later hlater ih =>
      cases h
      rcases ih hlater with ⟨front, back, read, hreaches, hfails, hposition⟩
      refine ⟨lexeme.text ++ front, back, read, Reaches.step hread hreaches, hfails, ?_⟩
      rw [hposition, List.append_assoc, Position.after_append position]
  | case4 => cases h

theorem scanFrom_of_reaches {front back read : List Char} (h : Reaches text front back)
    (hfails : Fails back error.fault.text read) (position : Position)
    (hposition : error.position = position.after (front ++ read)) :
    scanFrom position text = .error error := by
  induction h generalizing position with
  | here text =>
      rcases Lexeme.exists_read_of_fails hfails with ⟨c, rest, failure, rfl, hread, hfault, rfl⟩
      rw [List.nil_append] at hposition
      rw [scanFrom_of_read_error hread, LexFault.text_injective hfault, ← hposition]
  | step hread h ih =>
      rw [List.append_assoc, Position.after_append position] at hposition
      rw [scanFrom_of_read hread, ih hfails _ hposition]
      rfl

end Token

/--
A source has no tokens exactly when reading comes to the start of a token that is not closed.  The
error has the message of what stays open and the line and column of that start, or, when spaces
break an address, those behind the spaces.
-/
theorem tokenize_eq_error_iff (source : String) (error : LexError) :
    tokenize source = .error error <->
      exists front back read, front ++ back = source.toList ∧
        Token.Reaches source.toList front back ∧
        Lexeme.Fails back error.fault.text read ∧
        error.position.line = 1 + (front ++ read).count '\n' ∧
        error.position.column = 1 + lastLineLength (front ++ read) ∧
        error.position.offset = (front ++ read).length := by
  constructor
  · intro h
    rcases Token.exists_reaches_of_scanFrom h with
      ⟨front, back, read, hreaches, hfails, hposition⟩
    rw [Position.after_start] at hposition
    rw [hposition]
    exact ⟨front, back, read, hreaches.append_eq, hreaches, hfails, rfl, rfl, rfl⟩
  · rintro ⟨front, back, read, _, hreaches, hfails, hline, hcolumn, hoffset⟩
    have hposition : error.position = Position.start.after (front ++ read) := by
      rw [Position.after_start, ← hline, ← hcolumn, ← hoffset]
    exact Token.scanFrom_of_reaches hreaches hfails .start hposition

end Stylesheet
