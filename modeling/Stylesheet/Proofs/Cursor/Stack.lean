import Stylesheet.Proofs.Range.Nested

/-!
# What a stack of open blocks still reads

The parser keeps its open blocks on a stack, and a recursive descent has no stack.  What the two
have in common is what the rest of a source is read to, once the end of the source has closed
all that is open.  Main statements: a block that is closed, by its brace or by the end of the
source, is added to the state around it.
-/

namespace Stylesheet
namespace Sheet

open Run

variable {source : SourceName} {tokens rest more : List Token} {state after : State}
  {scope : Scope} {block : OpenBlock} {token : Token}

/-! ## Adding children -/

/-- Adds children, the latest first. -/
def State.addAll (state : State) (children : List Node) : State :=
  children.foldr (fun child state => state.add child) state

namespace State

theorem addAll_append (state : State) (later children : List Node) :
    state.addAll (later ++ children) = (state.addAll children).addAll later :=
  List.foldr_append

theorem addAll_push (state : State) (block : OpenBlock) (children : List Node) :
    (state.push block).addAll children =
      state.push { block with children := children ++ block.children } := by
  induction children with
  | nil => rfl
  | cons child children ih =>
      rw [addAll, List.foldr_cons]
      change ((state.push block).addAll children).add child = _
      rw [ih]
      rfl

theorem addAll_initial (children : List Node) : initial.addAll children = ⟨children, []⟩ := by
  induction children with
  | nil => rfl
  | cons child children ih =>
      rw [addAll, List.foldr_cons]
      change (initial.addAll children).add child = _
      rw [ih]
      rfl

/-- What the next item stands in; outside every block no block is open. -/
structure StandsIn (state : State) (scope : Scope) : Prop where
  scope_eq : state.scope = scope
  blocks_eq_nil : scope = .sheet -> state.blocks = []

theorem standsIn_initial : initial.StandsIn .sheet :=
  ⟨rfl, fun _ => rfl⟩

theorem standsIn_push (state : State) (h : block.scope ≠ .sheet) :
    (state.push block).StandsIn block.scope :=
  ⟨rfl, fun hsheet => absurd hsheet h⟩

theorem StandsIn.add (h : state.StandsIn scope) (child : Node) :
    (state.add child).StandsIn scope := by
  rcases state with ⟨children, blocks⟩
  cases blocks with
  | nil => exact ⟨h.scope_eq, fun _ => rfl⟩
  | cons block outer => exact ⟨h.scope_eq, fun hsheet => absurd (h.blocks_eq_nil hsheet) (by simp)⟩

theorem StandsIn.addAll (h : state.StandsIn scope) (children : List Node) :
    (state.addAll children).StandsIn scope := by
  induction children with
  | nil => exact h
  | cons child children ih => exact ih.add child

end State

/-! ## The rest of a source -/

/-- The position behind the last token of a source that is not trivia. -/
def significantStop (tokens : List Token) : Position :=
  stopOf (trim (tokens.filter (·.kind != .eof)))

/-- The children of the stylesheet, the latest first, when a state has read the rest. -/
def finish (source : SourceName) (tokens : List Token) (state : State) (rest : List Token) :
    Except ParseError (List Node) :=
  (readItems source state rest).map fun after =>
    closeAll source (stopOf tokens) (significantStop tokens) after.children none after.blocks

theorem ofTokens_eq_finish (source : SourceName) (tokens : List Token) :
    ofTokens source tokens = (finish source tokens .initial tokens).map fun children =>
      Node.spanning source tokens (.styleSheet children.reverse) := by
  rw [ofTokens, finish]
  cases readItems source .initial tokens <;> rfl

theorem finish_eof (h : token.kind = .eof) (rest : List Token) :
    finish source tokens state (token :: rest) =
      .ok (closeAll source (stopOf tokens) (significantStop tokens) state.children none
        state.blocks) := by
  rw [finish, readItems_eof h]
  rfl

theorem finish_step (heof : token.kind ≠ .eof)
    (h : step source state token rest = .ok (after, more)) :
    finish source tokens state (token :: rest) = finish source tokens after more := by
  rw [finish, readItems_cons heof, h]
  rfl

theorem finish_error {error : ParseError} (heof : token.kind ≠ .eof)
    (h : step source state token rest = .error error) :
    finish source tokens state (token :: rest) = .error error := by
  rw [finish, readItems_cons heof, h]
  rfl

/-! ## The end of the source -/

section Stops

variable {text : List Char} {front run : List Token} {last : Token}

/-- Adjoining tokens reach as far as the characters that they cover. -/
theorem stopOf_eq_positionBehind {behind : List Token}
    (h : Adjoins .start (front ++ run ++ behind)) (hne : run ≠ []) :
    stopOf run = positionBehind (front ++ run) := by
  rcases List.eq_nil_or_concat run with hnil | ⟨inner, token, rfl⟩
  · exact absurd hnil hne
  · rw [List.concat_eq_append, ← List.append_assoc, List.append_assoc, List.singleton_append] at h
    rw [List.concat_eq_append, stopOf, List.getLast?_concat, ← List.append_assoc]
    exact h.token.right

/-- A source reaches as far as the run in front of its end. -/
theorem stopOf_tokens (h : Token.Scan .start text tokens)
    (htokens : tokens = front ++ run ++ [last]) (hlast : last.kind = .eof) (hne : run ≠ []) :
    stopOf tokens = stopOf run := by
  have hchars := h.chars_of_eof (htokens ▸ List.mem_append_right _ List.mem_cons_self) hlast
  have hwhole : Adjoins .start ([] ++ tokens ++ []) := by
    rw [List.nil_append, List.append_nil]
    exact h.adjoins
  have hrun := h.adjoins
  rw [htokens] at hrun
  rw [stopOf_eq_positionBehind hwhole h.ne_nil, stopOf_eq_positionBehind hrun hne,
    List.nil_append, htokens, positionBehind, chars_append, hchars, List.append_nil]
  rfl

/-- The last token of a source that is not trivia is the last such token of a run at its end. -/
theorem significantStop_tokens (h : Token.Scan .start text tokens)
    (htokens : tokens = front ++ run ++ [last]) (hlast : last.kind = .eof)
    (hne : trim run ≠ []) :
    significantStop tokens = stopOf (trim run) := by
  have hfilter : tokens.filter (·.kind != .eof) = front ++ run := by
    rw [htokens, List.filter_append, List.filter_cons_of_neg (by simp [hlast]), List.filter_nil,
      List.append_nil, List.filter_eq_self]
    intro token hmem
    rw [bne_iff_ne]
    exact h.kind_ne_eof ⟨[], [], by rw [htokens, List.nil_append, List.append_nil]⟩ hmem
  rw [significantStop, hfilter, stopOf, getLast?_trim_append hne]
  rfl

end Stops

/-! ## Closed blocks -/

/-- A block that its brace closes, behind a run that begins with the brace that opens it. -/
theorem finish_push_rightBrace {run : List Token} (hbegins : Begins run)
    (h : token.kind = .rightBrace) :
    finish source tokens (state.push block) (token :: rest) =
      finish source tokens
        (state.add (block.close source (stopOf (run ++ [token])) (stopOf (trim (run ++ [token])))))
        rest := by
  have hends : Ends (run ++ [token]) :=
    (ends_singleton (congrArg TokenKind.isTrivia h)).append run
  have hstop : stopOf (run ++ [token]) = token.stop := by
    rw [stopOf, List.getLast?_concat]
  rw [trim_eq_self (hbegins.append [token]) hends, hstop]
  apply finish_step
  · simp [h]
  · simp only [step, h]
    rfl

/-- A block that the end of the source closes, behind a run that begins with its brace. -/
theorem finish_push_eof {text : List Char} {front run : List Token}
    (hscan : Token.Scan .start text tokens) (htokens : tokens = front ++ run ++ [token])
    (hbegins : Begins run) (h : token.kind = .eof) :
    finish source tokens (state.push block) [token] =
      finish source tokens
        (state.add (block.close source (stopOf run) (stopOf (trim run)))) [token] := by
  have hne : run ≠ [] := fun hnil => hbegins.trim_ne_nil (congrArg trim hnil)
  rw [finish_eof h, finish_eof h, stopOf_tokens hscan htokens h hne,
    significantStop_tokens hscan htokens h hbegins.trim_ne_nil]
  rcases state with ⟨children, blocks⟩
  cases blocks <;> rfl

theorem ofRun_eq_between {run : List Token} {first : Token} (h : run.head? = some first) :
    Location.ofRun source run = Location.between source first.start (stopOf run) := by
  cases run with
  | nil => cases h
  | cons token rest =>
      have hlast := List.getLast?_eq_some_getLast (List.cons_ne_nil token rest)
      rw [stopOf, hlast]
      exact Location.ofRun_of_ends h hlast

section Close

variable {keyword brace first : Token} {name : String} {front inner : List Token}
  {prelude : Node} {children : List Node}

/-- A rule with its block, over its tokens. -/
theorem close_rule (hfirst : (front ++ brace :: inner).head? = some first) (atRuleStop : Position) :
    OpenBlock.close source (stopOf (brace :: inner)) atRuleStop
        ⟨.rule first.start prelude, brace, scope, children⟩ =
      Node.spanning source (front ++ brace :: inner)
        (.rule prelude (Node.spanning source (brace :: inner) (.block children.reverse))) := by
  have hstop : stopOf (front ++ brace :: inner) = stopOf (brace :: inner) := by
    rw [stopOf, stopOf, List.getLast?_append_of_ne_nil front (List.cons_ne_nil brace inner)]
  rw [Node.spanning, Node.spanning, ofRun_eq_between hfirst, ofRun_eq_between rfl, hstop]
  rfl

/-- An at-rule with its block, over its tokens without the trivia at their end. -/
theorem close_atRule (hkeyword : keyword.isTrivia = false) (hbrace : brace.isTrivia = false)
    (prelude : Option Node) :
    OpenBlock.close source (stopOf (brace :: inner)) (stopOf (trim (brace :: inner)))
        ⟨.atRule keyword name prelude, brace, scope, children⟩ =
      Node.spanning source (trim (keyword :: front ++ brace :: inner))
        (.atRule name prelude
          (some (Node.spanning source (brace :: inner) (.block children.reverse)))) := by
  have hbegins := begins_cons hkeyword (front ++ brace :: inner)
  have hfirst : (trim (keyword :: front ++ brace :: inner)).head? = some keyword :=
    hbegins.head?_trim
  have hstop : stopOf (trim (keyword :: front ++ brace :: inner)) =
      stopOf (trim (brace :: inner)) := by
    rw [stopOf, stopOf, getLast?_trim_append (begins_cons hbrace inner).trim_ne_nil]
  rw [Node.spanning, Node.spanning, ofRun_eq_between hfirst, ofRun_eq_between rfl, hstop]
  rfl

end Close

end Sheet
end Stylesheet
