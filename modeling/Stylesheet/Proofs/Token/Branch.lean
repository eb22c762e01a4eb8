import Stylesheet.Token.Lexeme

/-!
# The choice between lexemes

Which lexeme is read is the first choice whose test passes.  A text that passes no test that a
longer text fails begins with the same choice, when it passes the test of that choice.
-/

namespace Stylesheet
namespace Lexeme

open Character

variable {c : Char} {kind : TokenKind} {rest other : List Char}

/-- The branches of the choice between lexemes. -/
inductive Branch where
  | whitespace
  | comment
  | string
  | hash
  | punctuation (kind : TokenKind)
  | cdo
  | numeric
  | cdc
  | atKeyword
  | range
  | named
  | delim

/-- The tests of the choice, without what is read after them. -/
def branch (c : Char) (rest : List Char) : Branch :=
  if isSpace c then .whitespace
  else if c == '/' && ['*'].isPrefixOf rest then .comment
  else if isQuote c then .string
  else if c == '#' && (Name.splitUnit? rest).isSome then .hash
  else if let some kind := punctuation? c then .punctuation kind
  else if c == '<' && ['!', '-', '-'].isPrefixOf rest then .cdo
  else if Numeral.starts (c :: rest) then .numeric
  else if c == '-' && ['-', '>'].isPrefixOf rest then .cdc
  else if c == '@' && Name.startsIdent rest then .atKeyword
  else if (c == 'u' || c == 'U') && startsRange rest then .range
  else if Name.startsIdent (c :: rest) then .named
  else .delim

namespace Branch

/-- What is read in a branch. -/
def read (c : Char) (rest : List Char) : Branch -> Except LexFailure Lexeme
  | whitespace => .ok ⟨.whitespace, c :: rest.takeWhile isSpace, rest.dropWhile isSpace⟩
  | comment =>
      match splitComment? (rest.drop 1) with
      | some (content, after) =>
          .ok ⟨.comment (String.ofList content), '/' :: '*' :: content ++ ['*', '/'], after⟩
      | none => .error ⟨.unterminatedComment, []⟩
  | string =>
      match splitString? c rest with
      | some (body, after) => .ok ⟨.string (String.ofList (c :: body)), c :: body, after⟩
      | none => .error ⟨.unterminatedString, []⟩
  | hash => .ok (marked c .hash rest)
  | punctuation kind => .ok ⟨kind, [c], rest⟩
  | cdo => .ok ⟨.cdo, ['<', '!', '-', '-'], rest.drop 3⟩
  | numeric => .ok (Lexeme.numeric (c :: rest))
  | cdc => .ok ⟨.cdc, ['-', '-', '>'], rest.drop 2⟩
  | atKeyword => .ok (marked c .atKeyword rest)
  | range => .ok (Lexeme.range c (rest.drop 1))
  | named => Lexeme.named (c :: rest)
  | delim => .ok ⟨.delim c, [c], rest⟩

/-- The test of a branch. -/
def test (c : Char) (rest : List Char) : Branch -> Bool
  | whitespace => isSpace c
  | comment => c == '/' && ['*'].isPrefixOf rest
  | string => isQuote c
  | hash => c == '#' && (Name.splitUnit? rest).isSome
  | punctuation kind => punctuation? c == some kind
  | cdo => c == '<' && ['!', '-', '-'].isPrefixOf rest
  | numeric => Numeral.starts (c :: rest)
  | cdc => c == '-' && ['-', '>'].isPrefixOf rest
  | atKeyword => c == '@' && Name.startsIdent rest
  | range => (c == 'u' || c == 'U') && startsRange rest
  | named => Name.startsIdent (c :: rest)
  | delim => true

/-- The branches in the order of their tests. -/
def all (c : Char) : List Branch :=
  [whitespace, comment, string, hash] ++ (punctuation? c).toList.map punctuation ++
    [cdo, numeric, cdc, atKeyword, range, named, delim]

end Branch

theorem read_eq_branch (c : Char) (rest : List Char) :
    read c rest = (branch c rest).read c rest := by
  unfold read branch
  cases punctuation? c <;> simp only [apply_ite (Branch.read c rest)] <;> rfl

theorem find?_cons_eq_ite (p : Branch -> Bool) (branch : Branch) (others : List Branch) :
    (branch :: others).find? p = if p branch then some branch else others.find? p := by
  rw [List.find?_cons]
  cases p branch <;> rfl

/-- The choice is the first branch whose test passes. -/
theorem find?_all (c : Char) (rest : List Char) :
    (Branch.all c).find? (Branch.test c rest) = some (branch c rest) := by
  unfold branch Branch.all
  cases hkind : punctuation? c <;>
    simp only [Option.toList, List.map_cons, List.map_nil, List.cons_append, List.nil_append,
      find?_cons_eq_ite, Branch.test, hkind, beq_self_eq_true, if_true, apply_ite some]

theorem test_branch (c : Char) (rest : List Char) : (branch c rest).test c rest = true :=
  List.find?_some (find?_all c rest)

theorem punctuation?_of_branch (h : branch c rest = .punctuation kind) :
    punctuation? c = some kind := by
  have htest := test_branch c rest
  rw [h] at htest
  exact beq_iff_eq.mp htest

theorem startsIdent_of_branch (h : branch c rest = .named) :
    Name.startsIdent (c :: rest) = true := by
  have htest := test_branch c rest
  rw [h] at htest
  exact htest

/-- The choice is the same where its test passes, if no test passes that does not pass here. -/
theorem branch_of_test {chosen : Branch} (h : branch c rest = chosen)
    (htest : chosen.test c other = true)
    (hmono : forall choice : Branch, choice.test c other = true -> choice.test c rest = true) :
    branch c other = chosen := by
  have hfind := find?_all c rest
  rw [h, List.find?_eq_some_iff_append] at hfind
  rcases hfind with ⟨-, front, back, hall, hfront⟩
  have hagain : (Branch.all c).find? (Branch.test c other) = some chosen := by
    refine List.find?_eq_some_iff_append.mpr ⟨htest, front, back, hall, fun choice hchoice => ?_⟩
    have hfails := hfront choice hchoice
    rw [Bool.not_eq_true'] at hfails ⊢
    refine Bool.eq_false_iff.mpr fun hpasses => ?_
    rw [hmono choice hpasses] at hfails
    cases hfails
  exact Option.some.inj ((find?_all c other).symm.trans hagain)

/-- The choice is the same where all tests come out the same. -/
theorem branch_congr (h : forall choice : Branch, choice.test c other = choice.test c rest) :
    branch c other = branch c rest :=
  branch_of_test rfl ((h _).trans (test_branch c rest)) fun choice hpasses => h choice ▸ hpasses

end Lexeme
end Stylesheet
