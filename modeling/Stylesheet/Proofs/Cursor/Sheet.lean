import Stylesheet.Proofs.Cursor.Selector
import Stylesheet.Proofs.Cursor.Values
import Stylesheet.Proofs.Range.Items

/-!
# Stylesheets by index

The parser as a recursive descent over a cursor.  Each reader begins at a cursor and returns the
cursor behind what it has read, and a block is read by the loop that reads the items around it.
Behind each iteration the cursor is checked to have moved forward and to be within the tokens,
and each block is checked to begin behind the brace of the block around it.
-/

namespace Stylesheet
namespace Cursor

open Sheet (Scope endsPrelude endsDeclaration)

/-- What a reader returns: what it has read, and the cursor behind it. -/
abbrev Reading (α : Type) := Except ParseError (α × Nat)

/-- A reader of the block whose brace is at a cursor. -/
abbrev BlockReader := Scope -> Nat -> Checked (Reading Node)

/-! ## The cursor -/

/-- The token at the cursor; behind the last token stands the end of the source. -/
def peek (tokens : List Token) (cursor : Nat) : Token :=
  tokens[cursor]?.getD ⟨.eof, "", .start⟩

/-- The cursor one token further, unless it stands behind the last token. -/
def advance (tokens : List Token) (cursor : Nat) : Nat :=
  if cursor < tokens.length then cursor + 1 else cursor

/-- The cursor at the first token outside every group that a test stops at. -/
def skipUntil (tokens : List Token) (stops : TokenKind -> Bool) (depth cursor : Nat) :
    Checked Nat :=
  let token := peek tokens cursor
  if token.kind = .eof || (depth == 0 && stops token.kind) then
    return cursor
  else
    let next := advance tokens cursor
    if _h : cursor < next ∧ next ≤ tokens.length then
      skipUntil tokens stops (Run.depthAfter depth token) next
    else
      .error .stall
termination_by tokens.length - cursor

section Front

variable (front : List Token)

@[simp] theorem peek_append (token : Token) (rest : List Token) :
    peek (front ++ token :: rest) front.length = token := by
  rw [peek, getElem?_front]
  rfl

@[simp] theorem advance_append (token : Token) (rest : List Token) :
    advance (front ++ token :: rest) front.length = front.length + 1 := by
  rw [advance, if_pos (by simp)]

/-- The cursor moves over what the scanner of runs takes. -/
theorem skipUntil_append (stops : TokenKind -> Bool) (depth : Nat) (rest : List Token) :
    skipUntil (front ++ rest) stops depth front.length =
      .ok (front ++ (Run.takeUntil stops depth rest).1).length := by
  induction rest generalizing front depth with
  | nil =>
      have hpeek : peek front front.length = ⟨.eof, "", .start⟩ := by
        rw [peek, List.getElem?_eq_none (Nat.le_refl _)]
        rfl
      rw [List.append_nil]
      unfold skipUntil Run.takeUntil
      simp only [hpeek, decide_true, Bool.true_or, if_true, pure_eq_ok, List.append_nil]
  | cons token rest ih =>
      have hmoves : front.length < front.length + 1 ∧
          front.length + 1 ≤ (front ++ token :: rest).length := by
        simp
      have hrest := ih (front ++ [token]) (Run.depthAfter depth token)
      rw [List.append_assoc, List.length_append, List.singleton_append, List.append_assoc,
        List.singleton_append] at hrest
      unfold skipUntil Run.takeUntil
      simp only [peek_append, advance_append, dif_pos hmoves]
      split
      · rw [List.append_nil, pure_eq_ok]
      · exact hrest

end Front

/-! ## Items -/

/-- Reads a declaration up to its end. -/
def readDeclaration (source : SourceName) (tokens : List Token) (start : Nat) :
    Checked (Reading Node) := do
  let stop ← skipUntil tokens endsDeclaration 0 start
  let run ← trim (← slice tokens start stop)
  match run.findIdx? (·.kind == .colon) with
  | none => return .error (.atToken .missingColon (← tokenAt run 0))
  | some colon =>
      let property := Run.text (← trim (← slice run 0 colon))
      if Declaration.isProperty property then
        let (content, important) ← splitImportant (← slice run (colon + 1) run.length)
        let value ←
          if Declaration.isCustom property then .ok (Node.rawRun source content)
          else valueOfRun source content
        return .ok (Node.spanning source run (.declaration important property value), stop)
      else
        return .error (.atToken .missingProperty (← tokenAt run 0))

/-- Where the first match of a test is, told by what stands in front of it. -/
theorem findIdx?_eq (test : Token -> Bool) (run : List Token) :
    run.findIdx? test =
      match run.dropWhile (!test ·) with
      | [] => none
      | _ :: _ => some (run.takeWhile (!test ·)).length := by
  induction run with
  | nil => rfl
  | cons token rest ih =>
      rw [List.findIdx?_cons, ih]
      cases htest : test token with
      | true => simp [htest]
      | false =>
          rw [List.dropWhile_cons_of_pos (by simp [htest]),
            List.takeWhile_cons_of_pos (by simp [htest])]
          cases rest.dropWhile (!test ·) <;> rfl

/-- A declaration by index is the one that its run is parsed to. -/
theorem readDeclaration_append (source : SourceName) {first : Token} (heof : first.kind ≠ .eof)
    (hstops : endsDeclaration first.kind = false) (htrivia : first.isTrivia = false)
    (front rest : List Token) :
    let run := (Run.takeUntil endsDeclaration (Run.depthAfter 0 first) rest).1
    readDeclaration source (front ++ first :: rest) front.length =
      .ok ((Declaration.parse source first run).map fun node =>
        (node, (front ++ first :: run).length)) := by
  intro run
  have htake : (Run.takeUntil endsDeclaration 0 (first :: rest)).1 = first :: run := by
    rw [Run.takeUntil, if_neg (by simp [heof, hstops])]
  have hslice : slice (front ++ first :: rest) front.length (front ++ first :: run).length =
      .ok (first :: run) := by
    have h := slice_append front (first :: run)
      (Run.takeUntil endsDeclaration (Run.depthAfter 0 first) rest).2
    rw [List.append_assoc, List.cons_append, Run.takeUntil_append] at h
    rw [List.length_append]
    exact h
  have hfirst : tokenAt (Run.trim (first :: run)) 0 = .ok first := by
    rw [tokenAt, ← List.head?_eq_getElem?, (Run.begins_cons htrivia run).head?_trim]
    rfl
  rw [readDeclaration, skipUntil_append, htake, ok_bind, hslice, ok_bind, trim_eq, ok_bind,
    findIdx?_eq]
  unfold Declaration.parse
  generalize Run.trim (first :: run) = covered at hfirst
  have hcut := List.takeWhile_append_dropWhile (p := (·.kind != .colon)) (l := covered)
  simp only [bne] at hcut ⊢
  generalize covered.takeWhile _ = property at hcut
  cases hdrop : covered.dropWhile (fun token => !token.kind == .colon) with
  | nil => simp only [hfirst, ok_bind, pure_eq_ok, Except.map]
  | cons colon behind =>
      rw [hdrop] at hcut
      have hbefore : slice covered 0 property.length = .ok property := by
        rw [← hcut]
        exact slice_start property (colon :: behind)
      have hbehind : slice covered (property.length + 1) covered.length = .ok behind := by
        have h := slice_end (property ++ [colon]) behind
        rw [List.append_assoc, List.singleton_append, hcut, List.length_append] at h
        exact h
      simp only [hbefore, hbehind, hfirst, ok_bind, trim_eq, splitImportant_eq, valueOfRun_eq,
        pure_eq_ok]
      split
      · rw [Declaration.value]
        split <;> rfl
      · rfl

/-- What a block belongs to, from a cursor up to the end of the block. -/
def coverBlock (source : SourceName) (tokens : List Token) (start : Nat)
    (cover : List Token -> Checked (List Token)) (construct : Node -> Construct Node) :
    Reading Node -> Checked (Reading Node)
  | .error error => return .error error
  | .ok (body, next) => do
      let covered ← cover (← slice tokens start next)
      return .ok (Node.spanning source covered (construct body), next)

/-- Reads an at-rule, with its block if it has one. -/
def readAtRule (source : SourceName) (tokens : List Token) (nested : BlockReader) (start : Nat) :
    Checked (Reading Node) :=
  match (peek tokens start).kind with
  | .atKeyword name => do
      let behind := advance tokens start
      let stop ← skipUntil tokens endsPrelude 0 behind
      let prelude ← atRulePrelude source name (← slice tokens behind stop)
      match (peek tokens stop).kind with
      | .leftBrace =>
          let scope := if ← holdsDeclarations name then .declarations else .rules
          let body ← nested scope stop
          coverBlock source tokens start trim (fun body => .atRule name prelude (some body)) body
      | .semicolon =>
          let next := advance tokens stop
          let covered ← trim (← slice tokens start next)
          return .ok (Node.spanning source covered (.atRule name prelude none), next)
      | _ =>
          let covered ← trim (← slice tokens start stop)
          return .ok (Node.spanning source covered (.atRule name prelude none), stop)
  | _ => .error .kind

/-- Reads a rule with its block. -/
def readRule (source : SourceName) (tokens : List Token) (nested : BlockReader) (start : Nat) :
    Checked (Reading Node) := do
  let stop ← skipUntil tokens endsPrelude 0 start
  if (peek tokens stop).kind = .leftBrace then
    let prelude ← rulePrelude source (← slice tokens start stop)
    let body ← nested .declarations stop
    coverBlock source tokens start pure (.rule prelude) body
  else
    return .error (.atToken .missingBlock (peek tokens stop))

/-- Reads an item at the cursor that may be none: outside every block comments are kept. -/
def readItem (source : SourceName) (tokens : List Token) (nested : BlockReader) (scope : Scope)
    (cursor : Nat) : Checked (Reading (Option Node)) :=
  let token := peek tokens cursor
  let kept (construct : Construct Node) : Option Node :=
    if scope = .sheet then some (Node.ofToken source token construct) else none
  let whole (reading : Checked (Reading Node)) : Checked (Reading (Option Node)) := do
    return (← reading).map fun (node, next) => (some node, next)
  match token.kind with
  | .whitespace => return .ok (none, advance tokens cursor)
  | .semicolon => return .ok (none, advance tokens cursor)
  | .comment content => return .ok (kept (.comment content), advance tokens cursor)
  | .atKeyword _ => whole (readAtRule source tokens nested cursor)
  | kind =>
      if scope = .declarations then whole (readDeclaration source tokens cursor)
      else
        match kind with
        | .cdo => return .ok (kept .cdo, advance tokens cursor)
        | .cdc => return .ok (kept .cdc, advance tokens cursor)
        | _ => whole (readRule source tokens nested cursor)

/-! ## Blocks -/

/--
Reads items behind those read so far, the latest first, up to the brace that closes the block
around them or up to the end of the source.
-/
def readItems (source : SourceName) (tokens : List Token) (nested : BlockReader) (scope : Scope)
    (children : List Node) (cursor : Nat) : Checked (Reading (List Node)) := do
  match (peek tokens cursor).kind with
  | .eof => return .ok (children.reverse, cursor)
  | .rightBrace =>
      if scope = .sheet then return .error (.atToken .strayBrace (peek tokens cursor))
      else return .ok (children.reverse, cursor)
  | _ =>
      match ← readItem source tokens nested scope cursor with
      | .error error => return .error error
      | .ok (child, next) =>
          if _h : cursor < next ∧ next ≤ tokens.length then
            readItems source tokens nested scope (child.toList ++ children) next
          else
            .error .stall
termination_by tokens.length - cursor

/-- The block whose items have been read; the end of the source closes it too. -/
def closeBlock (source : SourceName) (tokens : List Token) (start : Nat) :
    Reading (List Node) -> Checked (Reading Node)
  | .error error => return .error error
  | .ok (children, stop) => do
      let next := if (peek tokens stop).kind = .rightBrace then advance tokens stop else stop
      let covered ← slice tokens start next
      return .ok (Node.spanning source covered (.block children), next)

/-- Reads a block, and the blocks within it at cursors behind its brace. -/
def readBlock (source : SourceName) (tokens : List Token) (scope : Scope) (start : Nat) :
    Checked (Reading Node) := do
  let nested scope next :=
    if _h : start < next ∧ next ≤ tokens.length then readBlock source tokens scope next
    else .error .descent
  let items ← readItems source tokens nested scope [] (advance tokens start)
  closeBlock source tokens start items
termination_by tokens.length - start

/-! ## The whole source -/

/-- The stylesheet that a list of tokens is. -/
def ofTokens (source : SourceName) (tokens : List Token) : Checked (Except ParseError Node) := do
  let reading ← readItems source tokens (readBlock source tokens) .sheet [] 0
  return reading.map fun (children, _) => Node.spanning source tokens (.styleSheet children)

/-- The tree of a source. -/
def parse (text : String) (options : ParseOptions) : Checked (Except ParseError Node) :=
  match tokenize text with
  | .error error => return .error (.ofLexError error)
  | .ok tokens => ofTokens options.sourceName tokens

end Cursor
end Stylesheet
