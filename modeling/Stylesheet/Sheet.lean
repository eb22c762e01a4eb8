import Stylesheet.Declaration
import Stylesheet.Media
import Stylesheet.Selector

/-!
# Stylesheets

The parser reads one item after another: a rule up to its block, an at-rule up to its
block or its end, a declaration, the end of a block.  Blocks that are still open wait on
a stack, the innermost first, so that every item is read by one step.  The end of the
source closes what is open.  Main statement: every step leaves less to read.
-/

namespace Stylesheet
namespace Sheet

/-! ## Blocks -/

/-- What stands between the braces of a block, or outside every block. -/
inductive Scope where
  | sheet
  | rules
  | declarations
deriving DecidableEq, Repr

/-- The construct that a block belongs to, as far as it has been read. -/
inductive Owner where
  | atRule (keyword : Token) (name : String) (prelude : Option Node)
  | rule (start : Position) (prelude : Node)

/-- A block whose end has not been read: its owner, its brace, its children, the latest first. -/
structure OpenBlock where
  owner : Owner
  brace : Token
  scope : Scope
  children : List Node

/-- What has been read: the children of the stylesheet, the latest first, and the open blocks. -/
structure State where
  children : List Node
  blocks : List OpenBlock

/-- Nothing has been read. -/
def State.initial : State := ⟨[], []⟩

/-- What the next item stands in. -/
def State.scope (state : State) : Scope :=
  match state.blocks with
  | [] => .sheet
  | block :: _ => block.scope

/-- Adds a child to the innermost open block, or else to the stylesheet. -/
def State.add (state : State) (child : Node) : State :=
  match state.blocks with
  | [] => { state with children := child :: state.children }
  | block :: outer =>
      { state with blocks := { block with children := child :: block.children } :: outer }

/-- Opens a block. -/
def State.push (state : State) (block : OpenBlock) : State :=
  { state with blocks := block :: state.blocks }

/--
The construct that a block belongs to, now that the block is closed.  The block and a
rule reach to `stop`; an at-rule reaches to its last token that is not trivia.
-/
def OpenBlock.close (source : SourceName) (stop atRuleStop : Position) (block : OpenBlock) :
    Node :=
  let body : Node :=
    ⟨.block block.children.reverse, Location.between source block.brace.start stop⟩
  match block.owner with
  | .atRule keyword name prelude =>
      ⟨.atRule name prelude (some body), Location.between source keyword.start atRuleStop⟩
  | .rule start prelude =>
      ⟨.rule prelude body, Location.between source start stop⟩

/--
Closes every open block, the innermost first, and adds each to the block around it or to
the children of the stylesheet; `inner` is the construct that was closed last.
-/
def closeAll (source : SourceName) (stop atRuleStop : Position) (children : List Node)
    (inner : Option Node) : List OpenBlock -> List Node
  | [] => inner.toList ++ children
  | block :: outer =>
      let block := { block with children := inner.toList ++ block.children }
      closeAll source stop atRuleStop children (some (block.close source stop atRuleStop)) outer

/-! ## At-rules -/

/-- The at-rules whose block holds declarations. -/
def declarationRules : List String :=
  ["font-face", "page", "viewport", "counter-style", "property", "font-palette-values",
    "top-left-corner", "top-left", "top-center", "top-right", "top-right-corner",
    "bottom-left-corner", "bottom-left", "bottom-center", "bottom-right",
    "bottom-right-corner", "left-top", "left-middle", "left-bottom", "right-top",
    "right-middle", "right-bottom"]

/-- A name without its vendor: what stands between a first and a second hyphen. -/
def withoutVendor : List Char -> List Char
  | '-' :: '-' :: rest => '-' :: '-' :: rest
  | '-' :: rest =>
      match rest.dropWhile (· != '-') with
      | _ :: name => name
      | [] => '-' :: rest
  | name => name

/-- Whether the block of an at-rule holds declarations. -/
def holdsDeclarations (name : String) : Bool :=
  declarationRules.contains (String.ofList (withoutVendor name.toLower.toList))

/-- Tokens that end the prelude of a rule or an at-rule. -/
def endsPrelude : TokenKind -> Bool
  | .semicolon => true
  | .leftBrace => true
  | .rightBrace => true
  | _ => false

/-- Tokens that end a declaration. -/
def endsDeclaration : TokenKind -> Bool
  | .semicolon => true
  | .rightBrace => true
  | _ => false

/-- An at-rule without a block, over its run. -/
def bareAtRule (source : SourceName) (name : String) (prelude : Option Node)
    (run : List Token) : Node :=
  Node.spanning source (Run.trim run) (.atRule name prelude none)

/-! ## Items -/

/-- Reads an at-rule behind its keyword: all of it, or up to the opening of its block. -/
def readAtRule (source : SourceName) (state : State) (keyword : Token) (name : String)
    (rest : List Token) : State × List Token :=
  let (run, after) := Run.takeUntil endsPrelude 0 rest
  let prelude := Media.prelude? source name run
  match after with
  | token :: more =>
      match token.kind with
      | .leftBrace =>
          let scope := if holdsDeclarations name then .declarations else .rules
          (state.push ⟨.atRule keyword name prelude, token, scope, []⟩, more)
      | .semicolon =>
          (state.add (bareAtRule source name prelude (keyword :: run ++ [token])), more)
      | _ => (state.add (bareAtRule source name prelude (keyword :: run)), after)
  | [] => (state.add (bareAtRule source name prelude (keyword :: run)), [])

/-- Reads a rule, which begins with a token, up to the opening of its block. -/
def readRule (source : SourceName) (state : State) (first : Token) (rest : List Token) :
    Except ParseError (State × List Token) :=
  let (run, after) := Run.takeUntil endsPrelude 0 (first :: rest)
  match after with
  | token :: more =>
      if token.kind = .leftBrace then
        let owner := Owner.rule first.start (Selector.prelude source run)
        .ok (state.push ⟨owner, token, .declarations, []⟩, more)
      else
        .error (.atToken .missingBlock token)
  | [] => .error (.atToken .missingBlock first)

/-- Reads a declaration, which begins with a token, up to its end. -/
def readDeclaration (source : SourceName) (state : State) (first : Token)
    (rest : List Token) : Except ParseError (State × List Token) :=
  let (run, after) := Run.takeUntil endsDeclaration (Run.depthAfter 0 first) rest
  match Declaration.parse source first run with
  | .ok node => .ok (state.add node, after)
  | .error error => .error error

/-- Reads the brace that closes the innermost open block. -/
def readBrace (source : SourceName) (state : State) (brace : Token) :
    Except ParseError State :=
  match state.blocks with
  | [] => .error (.atToken .strayBrace brace)
  | block :: outer =>
      .ok (State.add ⟨state.children, outer⟩ (block.close source brace.stop brace.stop))

/-- Reads the item that begins with a token; outside every block comments are kept. -/
def step (source : SourceName) (state : State) (token : Token) (rest : List Token) :
    Except ParseError (State × List Token) :=
  match token.kind, state.scope with
  | .rightBrace, _ => (readBrace source state token).map fun state => (state, rest)
  | .whitespace, _ => .ok (state, rest)
  | .semicolon, _ => .ok (state, rest)
  | .comment content, .sheet =>
      .ok (state.add (Node.ofToken source token (.comment content)), rest)
  | .comment _, _ => .ok (state, rest)
  | .atKeyword name, _ => .ok (readAtRule source state token name rest)
  | _, .declarations => readDeclaration source state token rest
  | .cdo, .sheet => .ok (state.add (Node.ofToken source token .cdo), rest)
  | .cdc, .sheet => .ok (state.add (Node.ofToken source token .cdc), rest)
  | .cdo, .rules => .ok (state, rest)
  | .cdc, .rules => .ok (state, rest)
  | _, _ => readRule source state token rest

theorem readAtRule_rest_length_le (source : SourceName) (state : State) (keyword : Token)
    (name : String) (rest : List Token) :
    (readAtRule source state keyword name rest).2.length ≤ rest.length := by
  have h := Run.takeUntil_rest_length_le endsPrelude 0 rest
  simp only [readAtRule]
  split
  · rename_i token more heq
    rw [heq] at h
    simp only [List.length_cons] at h
    split
    · simp
      omega
    · simp
      omega
    · rw [heq]
      simpa using h
  · simp

theorem readRule_rest_length_le {source : SourceName} {state after : State} {first : Token}
    {rest more : List Token} (h : readRule source state first rest = .ok (after, more)) :
    more.length ≤ rest.length := by
  have hlength := Run.takeUntil_rest_length_le endsPrelude 0 (first :: rest)
  simp only [readRule] at h
  split at h
  · rename_i heq
    rw [heq] at hlength
    split at h
    · cases h
      simpa using hlength
    · cases h
  · cases h

theorem readDeclaration_rest_length_le {source : SourceName} {state after : State}
    {first : Token} {rest more : List Token}
    (h : readDeclaration source state first rest = .ok (after, more)) :
    more.length ≤ rest.length := by
  simp only [readDeclaration] at h
  split at h
  · cases h
    exact Run.takeUntil_rest_length_le ..
  · cases h

/-- Every step leaves less to read: at most what stands behind its first token. -/
theorem step_rest_length_le {source : SourceName} {state after : State} {token : Token}
    {rest more : List Token} (h : step source state token rest = .ok (after, more)) :
    more.length ≤ rest.length := by
  unfold step at h
  split at h
  · cases hbrace : readBrace source state token with
    | error error =>
        rw [hbrace] at h
        cases h
    | ok closed =>
        rw [hbrace] at h
        cases h
        exact Nat.le_refl _
  · cases h
    exact Nat.le_refl _
  · cases h
    exact Nat.le_refl _
  · cases h
    exact Nat.le_refl _
  · cases h
    exact Nat.le_refl _
  · rename_i name _
    have hlength := readAtRule_rest_length_le source state token name rest
    cases heq : readAtRule source state token name rest
    rw [heq] at h hlength
    cases h
    exact hlength
  · exact readDeclaration_rest_length_le h
  · cases h
    exact Nat.le_refl _
  · cases h
    exact Nat.le_refl _
  · cases h
    exact Nat.le_refl _
  · cases h
    exact Nat.le_refl _
  · exact readRule_rest_length_le h

/-! ## The whole source -/

/-- Reads items up to the end of the source, whose token stays. -/
def readItems (source : SourceName) (state : State) :
    (tokens : List Token) -> Except ParseError State
  | [] => .ok state
  | token :: rest =>
      if token.kind = .eof then
        .ok state
      else
        match _h : step source state token rest with
        | .error error => .error error
        | .ok (state, more) => readItems source state more
termination_by tokens => tokens.length
decreasing_by exact Nat.lt_succ_of_le (step_rest_length_le _h)

/-- The position behind the last token of a run. -/
def stopOf (run : List Token) : Position :=
  match run.getLast? with
  | some token => token.stop
  | none => .start

/-- The stylesheet that a list of tokens is, the last of which is the end of the source. -/
def ofTokens (source : SourceName) (tokens : List Token) : Except ParseError Node :=
  match readItems source .initial tokens with
  | .error error => .error error
  | .ok state =>
      let significant := Run.trim (tokens.filter (·.kind != .eof))
      let children := closeAll source (stopOf tokens) (stopOf significant) state.children none
        state.blocks
      .ok (Node.spanning source tokens (.styleSheet children.reverse))

end Sheet

/-- Whether and under which name locations are recorded. -/
structure ParseOptions where
  filename : Option String := none
  positions : Bool := false
deriving DecidableEq, Repr

/-- The name in locations when positions are recorded and no file is named. -/
def unknownSource : String := "<unknown>"

namespace ParseOptions

/-- The name under which locations are recorded, if they are. -/
def sourceName (options : ParseOptions) : SourceName :=
  if options.positions then some (options.filename.getD unknownSource) else none

end ParseOptions

/-- The tree of a source. -/
def parse (text : String) (options : ParseOptions) : Except ParseError Node :=
  match tokenize text with
  | .error error => .error (.ofLexError error)
  | .ok tokens => Sheet.ofTokens options.sourceName tokens

end Stylesheet
