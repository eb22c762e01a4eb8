import Stylesheet.Proofs.Moved.Readers
import Stylesheet.Proofs.Sheet.Steps

/-!
# Stylesheets of moved tokens

Main statement: moved tokens are read as the same stylesheet but for the locations of its nodes,
or fail in the same way at the moved place.
-/

namespace Stylesheet

variable {source : SourceName} {forget : Node -> Node} (place : Position -> Position)

/-- An error that is said to stand elsewhere. -/
def ParseError.moved (place : Position -> Position) (error : ParseError) : ParseError :=
  { error with position := place error.position }

/-! ## Declarations -/

namespace Declaration

theorem isImportant_moved (token : Token) : isImportant (token.moved place) = isImportant token :=
  rfl

theorem splitImportant_moved (run : List Token) :
    splitImportant (Run.moved place run) =
      (Run.moved place (splitImportant run).1, (splitImportant run).2) := by
  have hreverse : forall run : List Token,
      (Run.moved place run).reverse = Run.moved place run.reverse :=
    fun _ => List.map_reverse.symm
  unfold splitImportant
  rw [Run.trim_moved, hreverse]
  cases (Run.trim run).reverse with
  | nil => rfl
  | cons word earlier =>
      simp only [Run.moved_cons, Run.trimStart_moved]
      cases Run.trimStart earlier with
      | nil => rfl
      | cons bang front =>
          simp only [Run.moved_cons, Token.kind_moved, isImportant_moved, hreverse,
            Run.trim_moved]
          split <;> rfl

theorem value_moved (h : Node.Forgets source forget) (property : String) (run : List Token) :
    value none property (Run.moved place run) = forget (value source property run) := by
  unfold value
  split
  · exact (h.rawRun place run).symm
  · exact Value.ofRun_moved place h run

theorem parse_moved (h : Node.Forgets source forget) (first : Token) (rest : List Token) :
    parse none (first.moved place) (Run.moved place rest) =
      ((parse source first rest).map forget).mapError (ParseError.moved place) := by
  have htake : forall run : List Token, (Run.moved place run).takeWhile (·.kind != .colon) =
      Run.moved place (run.takeWhile (·.kind != .colon)) := by
    intro run
    unfold Run.moved
    rw [List.takeWhile_map]
    rfl
  have hdrop : forall run : List Token, (Run.moved place run).dropWhile (·.kind != .colon) =
      Run.moved place (run.dropWhile (·.kind != .colon)) := by
    intro run
    unfold Run.moved
    rw [List.dropWhile_map]
    rfl
  simp only [parse, ← Run.moved_cons, Run.trim_moved, htake, hdrop, Run.text_moved]
  cases (Run.trim (first :: rest)).dropWhile (·.kind != .colon) with
  | nil => rfl
  | cons colon behind =>
      simp only [Run.moved_cons, splitImportant_moved, value_moved place h]
      generalize Run.text (Run.trim ((Run.trim (first :: rest)).takeWhile (·.kind != .colon))) =
        property
      split
      · have hnode := h.spanning place (Run.trim (first :: rest)) (.declaration
          (splitImportant behind).2 property (value source property (splitImportant behind).1))
        exact congrArg Except.ok hnode.symm
      · rfl

end Declaration

namespace Sheet

/-! ## States -/

/-- The front of a block whose tokens are said to start elsewhere. -/
def Owner.moved (place : Position -> Position) (forget : Node -> Node) : Owner -> Owner
  | .atRule keyword name front => .atRule (keyword.moved place) name (front.map forget)
  | .rule start front => .rule (place start) (forget front)

/-- An open block whose tokens are said to start elsewhere. -/
def OpenBlock.moved (place : Position -> Position) (forget : Node -> Node) (block : OpenBlock) :
    OpenBlock :=
  ⟨block.owner.moved place forget, block.brace.moved place, block.scope,
    block.children.map forget⟩

/-- What has been read from tokens that are said to start elsewhere. -/
def State.moved (place : Position -> Position) (forget : Node -> Node) (state : State) : State :=
  ⟨state.children.map forget, state.blocks.map (OpenBlock.moved place forget)⟩

theorem scope_moved (state : State) : (state.moved place forget).scope = state.scope := by
  rcases state with ⟨children, blocks⟩
  cases blocks <;> rfl

theorem add_moved (state : State) (child : Node) :
    (state.moved place forget).add (forget child) = (state.add child).moved place forget := by
  rcases state with ⟨children, blocks⟩
  cases blocks <;> rfl

theorem close_moved (h : Node.Forgets source forget) (stop atRuleStop stop' atRuleStop' : Position)
    (block : OpenBlock) :
    (block.moved place forget).close none stop' atRuleStop' =
      forget (block.close source stop atRuleStop) := by
  have hbody : forget ⟨.block block.children.reverse,
      Location.between source block.brace.start stop⟩ =
        ⟨.block (block.children.map forget).reverse, none⟩ := by
    rw [← List.map_reverse]
    exact h.eq_of_location (h.location _ _ _)
  rcases block with ⟨owner, brace, scope, children⟩
  cases owner with
  | atRule keyword name front =>
      have hnode := h.eq_of_location (h.location (.atRule name front
        (some ⟨.block children.reverse, Location.between source brace.start stop⟩))
          keyword.start atRuleStop)
      rw [Construct.map, Option.map_some, hbody] at hnode
      exact hnode.symm
  | rule start front =>
      have hnode := h.eq_of_location (h.location (.rule front
        ⟨.block children.reverse, Location.between source brace.start stop⟩) start stop)
      rw [Construct.map, hbody] at hnode
      exact hnode.symm

theorem closeAll_moved (h : Node.Forgets source forget)
    (stop atRuleStop stop' atRuleStop' : Position) (children : List Node) (inner : Option Node)
    (blocks : List OpenBlock) :
    closeAll none stop' atRuleStop' (children.map forget) (inner.map forget)
        (blocks.map (OpenBlock.moved place forget)) =
      (closeAll source stop atRuleStop children inner blocks).map forget := by
  induction blocks generalizing inner with
  | nil =>
      rw [List.map_nil, closeAll, closeAll, List.map_append]
      cases inner <;> rfl
  | cons block outer ih =>
      have hblock : forall inner : Option Node,
          ({ block.moved place forget with
            children := (inner.map forget).toList ++ block.children.map forget } : OpenBlock) =
              OpenBlock.moved place forget
                { block with children := inner.toList ++ block.children } := by
        intro inner
        unfold OpenBlock.moved
        rw [List.map_append]
        cases inner <;> rfl
      rw [List.map_cons, closeAll, closeAll, ← ih]
      have hclose := close_moved place h stop atRuleStop stop' atRuleStop'
        { block with children := inner.toList ++ block.children }
      rw [← hblock] at hclose
      exact congrArg (fun node => closeAll none stop' atRuleStop' (children.map forget) (some node)
        (outer.map (OpenBlock.moved place forget))) hclose

/-! ## Items -/

theorem readAtRule_moved (h : Node.Forgets source forget) (state : State) (keyword : Token)
    (name : String) (rest : List Token) :
    readAtRule none (state.moved place forget) (keyword.moved place) name (Run.moved place rest) =
      ((readAtRule source state keyword name rest).1.moved place forget,
        Run.moved place (readAtRule source state keyword name rest).2) := by
  have hbare : forall (front : Option Node) (run : List Token),
      bareAtRule none name (front.map forget) (Run.moved place run) =
        forget (bareAtRule source name front run) := by
    intro front run
    unfold bareAtRule
    rw [Run.trim_moved]
    exact (h.spanning place (Run.trim run) (.atRule name front none)).symm
  simp only [readAtRule, Run.takeUntil_moved, Media.prelude?_moved place h]
  generalize (Run.takeUntil endsPrelude 0 rest).1 = run
  cases (Run.takeUntil endsPrelude 0 rest).2 with
  | nil =>
      rw [← add_moved, ← hbare]
      rfl
  | cons token more =>
      simp only [Run.moved_cons, Token.kind_moved]
      split
      · rfl
      · rw [← add_moved, ← hbare, Run.moved_append]
        rfl
      · rw [← add_moved, ← hbare]
        rfl

theorem readRule_moved (h : Node.Forgets source forget) (state : State) (first : Token)
    (rest : List Token) :
    readRule none (state.moved place forget) (first.moved place) (Run.moved place rest) =
      ((readRule source state first rest).map fun (after, more) =>
        (after.moved place forget, Run.moved place more)).mapError (ParseError.moved place) := by
  simp only [readRule, ← Run.moved_cons, Run.takeUntil_moved, Selector.prelude_moved place h]
  cases (Run.takeUntil endsPrelude 0 (first :: rest)).2 with
  | nil => rfl
  | cons token more =>
      rw [Run.moved_cons]
      by_cases hkind : token.kind = .leftBrace
      · have hkind' : (token.moved place).kind = .leftBrace := hkind
        simp only [if_pos hkind, if_pos hkind']
        rfl
      · have hkind' : (token.moved place).kind ≠ .leftBrace := hkind
        simp only [if_neg hkind, if_neg hkind']
        rfl

theorem readDeclaration_moved (h : Node.Forgets source forget) (state : State) (first : Token)
    (rest : List Token) :
    readDeclaration none (state.moved place forget) (first.moved place) (Run.moved place rest) =
      ((readDeclaration source state first rest).map fun (after, more) =>
        (after.moved place forget, Run.moved place more)).mapError (ParseError.moved place) := by
  simp only [readDeclaration, Run.depthAfter_moved, Run.takeUntil_moved,
    Declaration.parse_moved place h]
  cases Declaration.parse source first
    (Run.takeUntil endsDeclaration (Run.depthAfter 0 first) rest).1 with
  | error error => rfl
  | ok node => exact congrArg (fun state => Except.ok (state, _)) (add_moved place state node)

theorem readBrace_moved (h : Node.Forgets source forget) (state : State) (brace : Token) :
    readBrace none (state.moved place forget) (brace.moved place) =
      ((readBrace source state brace).map (State.moved place forget)).mapError
        (ParseError.moved place) := by
  rcases state with ⟨children, blocks⟩
  cases blocks with
  | nil => rfl
  | cons block outer =>
      have hclose := close_moved place h brace.stop brace.stop (brace.moved place).stop
        (brace.moved place).stop block
      have hadd : (State.moved place forget ⟨children, outer⟩).add
          (forget (block.close source brace.stop brace.stop)) = _ :=
        add_moved place ⟨children, outer⟩ (block.close source brace.stop brace.stop)
      rw [← hclose] at hadd
      exact congrArg Except.ok hadd

theorem step_moved (h : Node.Forgets source forget) (state : State) (token : Token)
    (rest : List Token) :
    step none (state.moved place forget) (token.moved place) (Run.moved place rest) =
      ((step source state token rest).map fun (after, more) =>
        (after.moved place forget, Run.moved place more)).mapError (ParseError.moved place) := by
  have hleaf : forall construct : Construct Node, construct.map forget = construct ->
      (state.moved place forget).add (Node.ofToken none (token.moved place) construct) =
        (state.add (Node.ofToken source token construct)).moved place forget := by
    intro construct hconstruct
    rw [← add_moved, h.ofToken place, hconstruct]
  unfold step
  rw [Token.kind_moved, scope_moved]
  split
  · rw [readBrace_moved place h]
    cases readBrace source state token <;> rfl
  · rfl
  · rfl
  · rw [hleaf _ rfl]
    rfl
  · rfl
  · rw [readAtRule_moved place h]
    rfl
  · exact readDeclaration_moved place h state token rest
  · rw [hleaf _ rfl]
    rfl
  · rw [hleaf _ rfl]
    rfl
  · rfl
  · rfl
  · exact readRule_moved place h state token rest

/-! ## The whole source -/

theorem readItems_moved (h : Node.Forgets source forget) (state : State) (tokens : List Token) :
    readItems none (state.moved place forget) (Run.moved place tokens) =
      ((readItems source state tokens).map (State.moved place forget)).mapError
        (ParseError.moved place) := by
  fun_induction readItems source state tokens with
  | case1 state =>
      rw [Run.moved_nil, readItems]
      rfl
  | case2 state token rest heof =>
      have heof' : (token.moved place).kind = .eof := heof
      rw [Run.moved_cons, readItems_eof heof']
      rfl
  | case3 state token rest heof error hstep =>
      have heof' : (token.moved place).kind ≠ .eof := heof
      have hstep' := step_moved place h state token rest
      rw [Run.moved_cons, readItems_cons heof', hstep', hstep]
      rfl
  | case4 state token rest heof next more hstep ih =>
      have heof' : (token.moved place).kind ≠ .eof := heof
      have hstep' := step_moved place h state token rest
      rw [Run.moved_cons, readItems_cons heof', hstep', hstep]
      exact ih

theorem ofTokens_moved (h : Node.Forgets source forget) (tokens : List Token) :
    ofTokens none (Run.moved place tokens) =
      ((ofTokens source tokens).map forget).mapError (ParseError.moved place) := by
  have hitems := readItems_moved place h .initial tokens
  change readItems none .initial _ = _ at hitems
  unfold ofTokens
  rw [hitems]
  cases readItems source .initial tokens with
  | error error => rfl
  | ok state =>
      have hchildren := closeAll_moved place h (stopOf tokens)
        (stopOf (Run.trim (tokens.filter (·.kind != .eof)))) (stopOf (Run.moved place tokens))
        (stopOf (Run.trim ((Run.moved place tokens).filter (·.kind != .eof)))) state.children none
        state.blocks
      have hnode := h.spanning place tokens (.styleSheet (closeAll source (stopOf tokens)
        (stopOf (Run.trim (tokens.filter (·.kind != .eof)))) state.children none
        state.blocks).reverse)
      rw [Construct.map, List.map_reverse, ← hchildren] at hnode
      exact congrArg Except.ok hnode.symm

end Sheet
end Stylesheet
