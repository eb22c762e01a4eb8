import Stylesheet.Proofs.Cursor.Sheet
import Stylesheet.Proofs.Cursor.Stack

/-!
# The parser by index agrees

Every reader at a cursor keeps to the stack of open blocks: it fails where the stack fails, and
else it stops behind the tokens that it has passed, and there the stack goes on with what the
reader has returned added to its state.  Main statement: on every source no check of the parser
by index fails, and it returns what the parser returns.
-/

namespace Stylesheet
namespace Cursor

open Sheet

/-! ## Readings -/

/--
How a reader in front of a rest ends: with an error, or behind the tokens that it has passed.  No
check has failed, and the end of the source has not been passed.
-/
inductive Agrees {α : Type} (front rest : List Token) (fails : ParseError -> Prop)
    (passes : α -> List Token -> List Token -> Prop) : Checked (Reading α) -> Prop
  | error {error : ParseError} (h : fails error) :
      Agrees front rest fails passes (.ok (.error error))
  | ok {value : α} {passed behind : List Token} (hrest : rest = passed ++ behind)
      (hend : HasEnd behind) (h : passes value passed behind) :
      Agrees front rest fails passes (.ok (.ok (value, (front ++ passed).length)))

namespace Agrees

variable {α β : Type} {front rest : List Token} {fails : ParseError -> Prop}
  {passes : α -> List Token -> List Token -> Prop} {reading : Checked (Reading α)}

theorem map {passes' : β -> List Token -> List Token -> Prop}
    (h : Agrees front rest fails passes reading) {f : α -> β}
    (hpasses : forall value passed behind, passes value passed behind ->
      passes' (f value) passed behind) :
    Agrees front rest fails passes'
      (reading >>= fun result => .ok (result.map fun (value, next) => (f value, next))) := by
  cases h with
  | error h => exact error h
  | ok hrest hend h => exact ok hrest hend (hpasses _ _ _ h)

/-- A reader that goes on behind tokens that have been passed. -/
theorem behind {passed : List Token} {fails' : ParseError -> Prop}
    {passes' : α -> List Token -> List Token -> Prop}
    (h : Agrees (front ++ passed) rest fails passes reading)
    (hfails : forall error, fails error -> fails' error)
    (hpasses : forall value more behind, passes value more behind ->
      passes' value (passed ++ more) behind) :
    Agrees front (passed ++ rest) fails' passes' reading := by
  cases h with
  | error h => exact error (hfails _ h)
  | ok hrest hend h =>
      rw [List.append_assoc]
      exact ok (by rw [hrest, List.append_assoc]) hend (hpasses _ _ _ h)

end Agrees

section Readers

variable {source : SourceName} {tokens : List Token}

/-- A reader of an item: it moves forward, and its nodes are added to the state. -/
def ReadsItem {α : Type} (source : SourceName) (tokens : List Token) (scope : Scope)
    (nodes : α -> List Node) (front rest : List Token) : Checked (Reading α) -> Prop :=
  Agrees front rest
    (fun error => forall state : State, state.StandsIn scope ->
      finish source tokens state rest = .error error)
    (fun value passed behind => passed ≠ [] ∧ forall state : State, state.StandsIn scope ->
      finish source tokens state rest =
        finish source tokens (state.addAll (nodes value)) behind)

/-- A reader of a block: whatever the block belongs to, the block is closed behind its tokens. -/
def ReadsBlock (source : SourceName) (tokens : List Token) (scope : Scope) (brace : Token)
    (front rest : List Token) : Checked (Reading Node) -> Prop :=
  Agrees front (brace :: rest)
    (fun error => forall (state : State) (owner : Owner),
      finish source tokens (state.push ⟨owner, brace, scope, []⟩) rest = .error error)
    (fun body passed behind => exists inner children, passed = brace :: inner ∧
      body = Node.spanning source passed (.block children.reverse) ∧
      forall (state : State) (owner : Owner),
        finish source tokens (state.push ⟨owner, brace, scope, []⟩) rest =
          finish source tokens
            (state.add (OpenBlock.close source (stopOf passed) (stopOf (Run.trim passed))
              ⟨owner, brace, scope, children⟩)) behind)

/-- A reader of the blocks that begin at a cursor or behind it. -/
def ReadsBlocks (source : SourceName) (tokens : List Token) (start : Nat)
    (nested : BlockReader) : Prop :=
  forall (front rest : List Token) (brace : Token) (scope : Scope),
    tokens = front ++ brace :: rest -> start ≤ front.length -> brace.kind = .leftBrace ->
      scope ≠ .sheet -> HasEnd rest ->
        ReadsBlock source tokens scope brace front rest (nested scope front.length)

theorem slice_between {front run behind : List Token} {start stop : Nat}
    (h : tokens = front ++ run ++ behind) (hstart : front.length = start)
    (hstop : (front ++ run).length = stop) : slice tokens start stop = .ok run := by
  rw [h, ← hstart, ← hstop, List.length_append]
  exact slice_append front run behind

/-! ## Declarations -/

variable {scope : Scope} {front rest : List Token} {first : Token} {nested : BlockReader}

/-- A declaration is read where the stack reads one. -/
theorem readsItem_declaration (htokens : tokens = front ++ first :: rest) (heof : first.kind ≠ .eof)
    (hstops : endsDeclaration first.kind = false) (htrivia : first.isTrivia = false)
    (hend : HasEnd rest)
    (hstep : forall state : State, state.StandsIn scope ->
      step source state first rest = Sheet.readDeclaration source state first rest) :
    ReadsItem source tokens scope (fun node => [node]) front (first :: rest)
      (readDeclaration source tokens front.length) := by
  have hread := readDeclaration_append source heof hstops htrivia front rest
  rw [htokens, hread]
  cases hparse : Declaration.parse source first
      (Run.takeUntil endsDeclaration (Run.depthAfter 0 first) rest).1 with
  | error error =>
      apply Agrees.error
      intro state hstate
      apply finish_error heof
      simp only [hstep state hstate, Sheet.readDeclaration, hparse]
  | ok node =>
      apply Agrees.ok _ (hend.takeUntil endsDeclaration (Run.depthAfter 0 first))
      · refine ⟨List.cons_ne_nil _ _, fun state hstate => finish_step heof ?_⟩
        simp only [hstep state hstate, Sheet.readDeclaration, hparse]
        rfl
      · rw [List.cons_append, Run.takeUntil_append]

/-! ## Items with a block -/

/-- An item that ends with a block, which is read where the stack opens one. -/
theorem readsItem_ofBlock {within : Scope} {mark : Token} {run more : List Token} {owner : Owner}
    {cover : List Token -> Checked (List Token)} {covers : List Token -> List Token}
    {construct : Node -> Construct Node} {reading : Checked (Reading Node)}
    (hcover : forall run, cover run = .ok (covers run))
    (htokens : tokens = front ++ run ++ mark :: more)
    (hrun : run ++ mark :: more = first :: rest) (heof : first.kind ≠ .eof)
    (hblock : ReadsBlock source tokens within mark (front ++ run) more reading)
    (hstep : forall state : State, state.StandsIn scope ->
      step source state first rest = .ok (state.push ⟨owner, mark, within, []⟩, more))
    (hnode : forall inner children,
      OpenBlock.close source (stopOf (mark :: inner)) (stopOf (Run.trim (mark :: inner)))
          ⟨owner, mark, within, children⟩ =
        Node.spanning source (covers (run ++ mark :: inner))
          (construct (Node.spanning source (mark :: inner) (.block children.reverse)))) :
    ReadsItem source tokens scope (fun node => [node]) front (first :: rest)
      (reading >>= coverBlock source tokens front.length cover construct) := by
  cases hblock with
  | error h =>
      apply Agrees.error
      intro state hstate
      rw [finish_step heof (hstep state hstate)]
      exact h state owner
  | @ok body passed behind hrest hend h =>
      rcases h with ⟨inner, children, rfl, rfl, hclose⟩
      have hcovered : slice tokens front.length (front ++ run ++ mark :: inner).length =
          .ok (run ++ mark :: inner) := by
        apply @slice_between _ _ _ behind _ _ _ rfl
        · rw [List.append_assoc]
        · rw [htokens, hrest, List.append_assoc, List.append_assoc, List.append_assoc]
      simp only [ok_bind, coverBlock, hcovered, hcover]
      rw [List.append_assoc, ← hnode]
      apply Agrees.ok _ hend
      · refine ⟨by simp, fun state hstate => ?_⟩
        rw [finish_step heof (hstep state hstate)]
        exact hclose state owner
      · rw [← hrun, hrest, List.append_assoc]

/-! ## At-rules -/

section AtRule

variable {name : String} {run more : List Token} {mark : Token}

theorem readAtRule_append (hkind : first.kind = .atKeyword name)
    (htokens : tokens = front ++ first :: (run ++ mark :: more))
    (hrun : Run.takeUntil endsPrelude 0 (run ++ mark :: more) = (run, mark :: more)) :
    readAtRule source tokens nested front.length =
      match mark.kind with
      | .leftBrace => do
          let body ← nested (scopeOf name) (front ++ first :: run).length
          coverBlock source tokens front.length trim
            (fun body => .atRule name (Media.prelude? source name run) (some body)) body
      | .semicolon =>
          .ok (.ok
            (bareAtRule source name (Media.prelude? source name run) (first :: run ++ [mark]),
              (front ++ (first :: run ++ [mark])).length))
      | _ =>
          .ok (.ok
            (bareAtRule source name (Media.prelude? source name run) (first :: run),
              (front ++ first :: run).length)) := by
  have hstop : skipUntil tokens endsPrelude 0 (front.length + 1) =
      .ok (front ++ first :: run).length := by
    have h := skipUntil_append (front ++ [first]) endsPrelude 0 (run ++ mark :: more)
    rw [hrun, List.append_assoc, List.singleton_append, ← htokens, List.append_assoc,
      List.singleton_append, List.length_append, List.length_singleton] at h
    exact h
  have hprelude : slice tokens (front.length + 1) (front ++ first :: run).length = .ok run := by
    apply @slice_between tokens (front ++ [first]) run (mark :: more)
    · simp [htokens]
    · rw [List.length_append, List.length_singleton]
    · rw [List.append_assoc, List.singleton_append]
  have hmark : tokens = (front ++ first :: run) ++ mark :: more := by
    simp [htokens]
  have hpeek : peek tokens (front ++ first :: run).length = mark := by
    rw [hmark, peek_append]
  have hadvance : advance tokens (front ++ first :: run).length =
      (front ++ (first :: run ++ [mark])).length := by
    rw [hmark, advance_append]
    simp [Nat.add_assoc]
  have hfirst : (peek tokens front.length).kind = .atKeyword name := by
    rw [htokens, peek_append, hkind]
  have hbehind : advance tokens front.length = front.length + 1 := by
    rw [htokens, advance_append]
  have hbare : slice tokens front.length (front ++ first :: run).length = .ok (first :: run) :=
    slice_between hmark rfl rfl
  have hclosed : slice tokens front.length (front ++ (first :: run ++ [mark])).length =
      .ok (first :: run ++ [mark]) := by
    apply @slice_between _ _ _ more _ _ _ rfl rfl
    simp [htokens]
  simp only [readAtRule, hfirst, hbehind, hstop, hprelude, hpeek, hadvance, hbare, hclosed,
    atRulePrelude_eq, holdsDeclarations_eq, trim_eq, ok_bind, pure_eq_ok]
  rfl

/-- An at-rule, with its block if it has one. -/
theorem readsItem_atRule (hnested : ReadsBlocks source tokens front.length nested)
    (htokens : tokens = front ++ first :: rest) (hkind : first.kind = .atKeyword name)
    (hend : HasEnd rest) :
    ReadsItem source tokens scope (fun node => [node]) front (first :: rest)
      (readAtRule source tokens nested front.length) := by
  have heof : first.kind ≠ .eof := by
    rw [hkind]
    exact TokenKind.noConfusion
  have htrivia : first.isTrivia = false := congrArg TokenKind.isTrivia hkind
  rcases hend.exists_isCut endsPrelude with ⟨run, mark, more, rfl, hbehind, hcut⟩
  have hrun := hcut.takeUntil more
  have hstep := @step_atRule source _ _ _ _ _ _ hkind hrun
  rw [readAtRule_append hkind htokens hrun]
  split <;> rename_i hmark
  · simp only [hmark] at hstep
    have hpassed : tokens = (front ++ first :: run) ++ mark :: more := by
      simp [htokens]
    have hbrace : mark.isTrivia = false := congrArg TokenKind.isTrivia hmark
    have hscope : scopeOf name ≠ .sheet := by
      unfold scopeOf
      split <;> exact Scope.noConfusion
    have hblock := hnested (front ++ first :: run) more mark (scopeOf name) hpassed (by simp) hmark
      hscope (hbehind.tail (by simp [hmark]))
    exact readsItem_ofBlock trim_eq hpassed rfl heof hblock (fun state _ => hstep state)
      fun _ _ => close_atRule htrivia hbrace _
  · simp only [hmark] at hstep
    apply Agrees.ok _ (hbehind.tail (by simp [hmark]))
    · exact ⟨List.cons_ne_nil _ _, fun state hstate => finish_step heof (hstep state)⟩
    · simp
  · rename_i hsemicolon
    apply Agrees.ok _ hbehind
    · refine ⟨List.cons_ne_nil _ _, fun state hstate => finish_step heof ?_⟩
      rw [hstep state]
      split
      · contradiction
      · contradiction
      · rfl
    · rfl

end AtRule

/-! ## Rules -/

section Rule

variable {run more : List Token} {mark : Token}

theorem readRule_append (htokens : tokens = front ++ run ++ mark :: more)
    (hrun : Run.takeUntil endsPrelude 0 (run ++ mark :: more) = (run, mark :: more)) :
    readRule source tokens nested front.length =
      if mark.kind = .leftBrace then do
        let body ← nested .declarations (front ++ run).length
        coverBlock source tokens front.length pure (.rule (Selector.prelude source run)) body
      else
        .ok (.error (.atToken .missingBlock mark)) := by
  have hstop : skipUntil tokens endsPrelude 0 front.length = .ok (front ++ run).length := by
    rw [htokens, List.append_assoc, skipUntil_append, hrun]
  have hprelude : slice tokens front.length (front ++ run).length = .ok run :=
    slice_between htokens rfl rfl
  have hpeek : peek tokens (front ++ run).length = mark := by
    rw [htokens, peek_append]
  simp only [readRule, hstop, hprelude, hpeek, rulePrelude_eq, ok_bind, pure_eq_ok]

/-- A rule with its block is read where the stack reads one. -/
theorem readsItem_rule (hnested : ReadsBlocks source tokens front.length nested)
    (htokens : tokens = front ++ first :: rest) (heof : first.kind ≠ .eof)
    (hend : HasEnd (first :: rest))
    (hstep : forall state : State, state.StandsIn scope ->
      step source state first rest = Sheet.readRule source state first rest) :
    ReadsItem source tokens scope (fun node => [node]) front (first :: rest)
      (readRule source tokens nested front.length) := by
  rcases hend.exists_isCut endsPrelude with ⟨run, mark, more, hrest, hbehind, hcut⟩
  have hrun := Run.takeUntil_eq_iff.mpr ⟨hrest, hcut⟩
  simp only [Sheet.readRule, hrun] at hstep
  rw [hrest] at hrun
  have hpassed : tokens = front ++ run ++ mark :: more := by
    rw [htokens, hrest, List.append_assoc]
  rw [readRule_append hpassed hrun]
  split <;> rename_i hmark
  · simp only [if_pos hmark] at hstep
    have hblock := hnested (front ++ run) more mark .declarations hpassed (by simp) hmark
      Scope.noConfusion (hbehind.tail (by simp [hmark]))
    apply readsItem_ofBlock pure_eq_ok hpassed hrest.symm heof hblock hstep
    intro inner children
    have hfirst : (run ++ mark :: inner).head? = some first := by
      cases run with
      | nil =>
          rw [List.nil_append, List.cons.injEq] at hrest
          rw [hrest.left]
          rfl
      | cons token run =>
          rw [List.cons_append, List.cons.injEq] at hrest
          rw [hrest.left]
          rfl
    exact close_rule hfirst _
  · simp only [if_neg hmark] at hstep
    exact Agrees.error fun state hstate => finish_error heof (hstep state hstate)

end Rule

/-! ## Items -/

/-- A token that belongs to no item, or is an item by itself. -/
theorem readsItem_token (heof : first.kind ≠ .eof) (hend : HasEnd rest) (child : Option Node)
    (hstep : forall state : State, state.StandsIn scope ->
      step source state first rest = .ok (state.addAll child.toList, rest)) :
    ReadsItem source tokens scope Option.toList front (first :: rest)
      (.ok (.ok (child, front.length + 1))) := by
  have hnext : front.length + 1 = (front ++ [first]).length := by
    rw [List.length_append, List.length_singleton]
  rw [hnext]
  apply Agrees.ok _ hend
  · exact ⟨List.cons_ne_nil _ _, fun state hstate => finish_step heof (hstep state hstate)⟩
  · rfl

/-- An item by index is the one that the stack reads. -/
theorem readsItem_readItem (hnested : ReadsBlocks source tokens front.length nested)
    (htokens : tokens = front ++ first :: rest) (heof : first.kind ≠ .eof)
    (hbrace : first.kind ≠ .rightBrace) (hend : HasEnd rest) :
    ReadsItem source tokens scope Option.toList front (first :: rest)
      (readItem source tokens nested scope front.length) := by
  have hpeek : peek tokens front.length = first := by
    rw [htokens, peek_append]
  have hadvance : advance tokens front.length = front.length + 1 := by
    rw [htokens, advance_append]
  unfold readItem
  simp only [hpeek, hadvance, pure_eq_ok]
  split
  · rename_i hkind
    apply readsItem_token heof hend none
    intro state hstate
    simp only [step, hkind]
    rfl
  · rename_i hkind
    apply readsItem_token heof hend none
    intro state hstate
    simp only [step, hkind]
    rfl
  · rename_i content hkind
    apply readsItem_token heof hend
    intro state hstate
    simp only [step, hkind, hstate.scope_eq]
    cases scope <;> rfl
  · rename_i name hkind
    exact (readsItem_atRule hnested htokens hkind hend).map fun _ _ _ h => h
  · rename_i hwhitespace hsemicolon hcomment hkeyword
    have hbegins : BeginsItem first := ⟨hbrace, hwhitespace, hsemicolon, hcomment, hkeyword⟩
    split
    · rename_i hscope
      have hstep : forall state : State, state.StandsIn scope ->
          step source state first rest = Sheet.readDeclaration source state first rest :=
        fun state hstate => hbegins.step_declaration (hstate.scope_eq.trans hscope)
      have hread := readsItem_declaration htokens heof hbegins.endsDeclaration_eq
        hbegins.isTrivia_eq hend hstep
      exact hread.map fun _ _ _ h => h
    · rename_i hscope
      split
      · rename_i hkind
        apply readsItem_token heof hend
        intro state hstate
        simp only [step, hkind, hstate.scope_eq]
        cases scope <;> first | rfl | contradiction
      · rename_i hkind
        apply readsItem_token heof hend
        intro state hstate
        simp only [step, hkind, hstate.scope_eq]
        cases scope <;> first | rfl | contradiction
      · rename_i hcdo hcdc
        have hstep : forall state : State, state.StandsIn scope ->
            step source state first rest = Sheet.readRule source state first rest :=
          fun state hstate => hbegins.step_rule hcdo hcdc (hstate.scope_eq ▸ hscope)
        exact (readsItem_rule hnested htokens heof (hend.cons first) hstep).map fun _ _ _ h => h

/-! ## Lists of items -/

theorem ReadsBlocks.mono {start later : Nat} (h : ReadsBlocks source tokens start nested)
    (hle : start ≤ later) : ReadsBlocks source tokens later nested :=
  fun front rest brace scope htokens hlater => h front rest brace scope htokens (hle.trans hlater)

/-- What is left when a list of items has been read: its brace, or the end of the source. -/
def IsLeft (scope : Scope) (rest : List Token) : Prop :=
  exists token more, rest = token :: more ∧
    (token.kind = .eof ∨ token.kind = .rightBrace ∧ scope ≠ .sheet)

/-- A reader of a list of items, behind those that have been added before. -/
def ReadsItems (source : SourceName) (tokens : List Token) (scope : Scope) (children : List Node)
    (front rest : List Token) : Checked (Reading (List Node)) -> Prop :=
  Agrees front rest
    (fun error => forall state : State, state.StandsIn scope ->
      finish source tokens (state.addAll children) rest = .error error)
    (fun nodes _ behind => IsLeft scope behind ∧ forall state : State, state.StandsIn scope ->
      finish source tokens (state.addAll children) rest =
        finish source tokens (state.addAll nodes.reverse) behind)

theorem readsItems_of_isLeft (children : List Node) (hleft : IsLeft scope rest)
    (hend : HasEnd rest) :
    ReadsItems source tokens scope children front rest
      (.ok (.ok (children.reverse, front.length))) := by
  have hempty : front.length = (front ++ []).length := by
    rw [List.append_nil]
  rw [hempty]
  apply Agrees.ok _ hend
  · refine ⟨hleft, fun state _ => ?_⟩
    rw [List.reverse_reverse]
  · rfl

/-- Behind tokens that have been passed the cursor has moved forward and is within the tokens. -/
theorem moves_of_passed {passed behind : List Token} (htokens : tokens = front ++ passed ++ behind)
    (hne : passed ≠ []) :
    front.length < (front ++ passed).length ∧ (front ++ passed).length ≤ tokens.length := by
  have hpositive := List.length_pos_iff.mpr hne
  simp only [htokens, List.length_append]
  omega

/-- The items behind an item, whose nodes have been added. -/
theorem ReadsItems.behind {later children : List Node} {passed behind : List Token}
    {reading : Checked (Reading (List Node))} (hrest : rest = passed ++ behind)
    (hadd : forall state : State, state.StandsIn scope ->
      finish source tokens state rest = finish source tokens (state.addAll later) behind)
    (h : ReadsItems source tokens scope (later ++ children) (front ++ passed) behind reading) :
    ReadsItems source tokens scope children front rest reading := by
  have hstate : forall state : State, state.StandsIn scope ->
      finish source tokens (state.addAll children) rest =
        finish source tokens (state.addAll (later ++ children)) behind := by
    intro state hstate
    rw [hadd _ (hstate.addAll children), State.addAll_append]
  rw [ReadsItems, hrest]
  apply Agrees.behind h
  · intro error herror state hstands
    rw [← hrest, hstate state hstands]
    exact herror state hstands
  · rintro nodes _ left ⟨hleft, hnodes⟩
    refine ⟨hleft, fun state hstands => ?_⟩
    rw [← hrest, hstate state hstands]
    exact hnodes state hstands

/-- Each iteration adds what one item adds, and moves the cursor forward within the tokens. -/
theorem readsItems_readItems {start : Nat} (hnested : ReadsBlocks source tokens start nested)
    (children : List Node) (htokens : tokens = front ++ rest) (hstart : start ≤ front.length)
    (hend : HasEnd rest) :
    ReadsItems source tokens scope children front rest
      (readItems source tokens nested scope children front.length) := by
  induction hlength : rest.length using Nat.strong_induction_on
    generalizing front rest children with
  | _ length ih =>
      rcases List.exists_cons_of_ne_nil hend.ne_nil with ⟨first, more, rfl⟩
      have hpeek : peek tokens front.length = first := by
        rw [htokens, peek_append]
      unfold readItems
      rw [hpeek]
      split
      · rename_i heof
        exact readsItems_of_isLeft children ⟨first, more, rfl, .inl heof⟩ hend
      · rename_i hbrace
        split
        · rename_i hscope
          apply Agrees.error
          intro state hstate
          apply finish_error
          · simp [hbrace]
          · simp only [step, hbrace, readBrace, (hstate.addAll children).blocks_eq_nil hscope]
            rfl
        · rename_i hscope
          exact readsItems_of_isLeft children ⟨first, more, rfl, .inr ⟨hbrace, hscope⟩⟩ hend
      · rename_i heof hbrace
        have hitem := @readsItem_readItem source tokens scope _ _ _ _ (hnested.mono hstart)
          htokens heof hbrace (hend.tail heof)
        generalize readItem source tokens nested scope front.length = reading at hitem
        cases hitem with
        | error h =>
            apply Agrees.error
            intro state hstate
            exact h _ (hstate.addAll children)
        | @ok child passed behind hrest hbehind h =>
            rcases h with ⟨hne, hadd⟩
            have hpassed : tokens = (front ++ passed) ++ behind := by
              rw [htokens, hrest, List.append_assoc]
            have hmoves := moves_of_passed hpassed hne
            have hshorter : behind.length < (first :: more).length := by
              rw [hrest, List.length_append]
              exact Nat.lt_add_of_pos_left (List.length_pos_iff.mpr hne)
            have hlater := ih behind.length (hlength ▸ hshorter) (child.toList ++ children) hpassed
              (hstart.trans hmoves.left.le) hbehind rfl
            simp only [ok_bind, dif_pos hmoves]
            exact ReadsItems.behind hrest hadd hlater

/-! ## Blocks -/

section Block

variable {brace token : Token} {passed more : List Token}

/-- A block reaches through the brace that closes it, if one does. -/
theorem closeBlock_append (htokens : tokens = front ++ brace :: passed ++ token :: more)
    (nodes : List Node) :
    closeBlock source tokens front.length (.ok (nodes, (front ++ brace :: passed).length)) =
      if token.kind = .rightBrace then
        .ok (.ok (Node.spanning source (brace :: passed ++ [token]) (.block nodes),
          (front ++ (brace :: passed ++ [token])).length))
      else
        .ok (.ok (Node.spanning source (brace :: passed) (.block nodes),
          (front ++ brace :: passed).length)) := by
  have hpeek : peek tokens (front ++ brace :: passed).length = token := by
    rw [htokens, peek_append]
  have hadvance : advance tokens (front ++ brace :: passed).length =
      (front ++ (brace :: passed ++ [token])).length := by
    rw [htokens, advance_append]
    simp [Nat.add_assoc]
  have hclosed : slice tokens front.length (front ++ (brace :: passed ++ [token])).length =
      .ok (brace :: passed ++ [token]) := by
    apply @slice_between _ _ _ more _ _ _ rfl rfl
    simp [htokens]
  have hunclosed : slice tokens front.length (front ++ brace :: passed).length =
      .ok (brace :: passed) :=
    slice_between htokens rfl rfl
  simp only [closeBlock, hpeek, hadvance]
  split
  · simp only [hclosed, ok_bind, pure_eq_ok]
  · simp only [hunclosed, ok_bind, pure_eq_ok]

/-- A block that its brace closes, or the end of the source. -/
theorem readsBlock_closeBlock {text : List Char} {reading : Checked (Reading (List Node))}
    (hscan : Token.Scan .start text tokens) (htokens : tokens = front ++ brace :: rest)
    (hbrace : brace.kind = .leftBrace) (hscope : scope ≠ .sheet)
    (hitems : ReadsItems source tokens scope [] (front ++ [brace]) rest reading) :
    ReadsBlock source tokens scope brace front rest
      (reading >>= closeBlock source tokens front.length) := by
  cases hitems with
  | error h =>
      apply Agrees.error
      intro state owner
      exact h _ (state.standsIn_push hscope)
  | @ok nodes passed behind hrest hbehind h =>
      rcases h with ⟨⟨token, more, rfl, hleft⟩, hnodes⟩
      have hbegins : Run.Begins (brace :: passed) :=
        Run.begins_cons (congrArg TokenKind.isTrivia hbrace) passed
      have hpassed : tokens = front ++ brace :: passed ++ token :: more := by
        simp [htokens, hrest]
      have hinside : forall (state : State) (owner : Owner),
          finish source tokens (state.push ⟨owner, brace, scope, []⟩) rest =
            finish source tokens (state.push ⟨owner, brace, scope, nodes.reverse⟩)
              (token :: more) := by
        intro state owner
        have h := hnodes (state.push ⟨owner, brace, scope, []⟩) (state.standsIn_push hscope)
        rw [State.addAll_push _ _ nodes.reverse, List.append_nil] at h
        exact h
      rw [ok_bind, List.append_assoc, List.singleton_append, closeBlock_append hpassed]
      split <;> rename_i hcloses
      · apply Agrees.ok _ (hbehind.tail (by simp [hcloses]))
        · refine ⟨passed ++ [token], nodes.reverse, rfl, by rw [List.reverse_reverse], ?_⟩
          intro state owner
          rw [hinside, finish_push_rightBrace hbegins hcloses]
        · simp [hrest]
      · have heof : token.kind = .eof := hleft.resolve_right fun h => hcloses h.left
        have hnil := hscan.eq_nil_of_eof hpassed heof
        subst hnil
        apply Agrees.ok _ hbehind
        · refine ⟨passed, nodes.reverse, rfl, by rw [List.reverse_reverse], ?_⟩
          intro state owner
          rw [hinside, finish_push_eof hscan hpassed hbegins heof]
        · rw [hrest, List.cons_append]

end Block

/-- Blocks within blocks are read at cursors that are further and further. -/
theorem readsBlocks_readBlock {text : List Char} (hscan : Token.Scan .start text tokens) :
    ReadsBlocks source tokens 0 (readBlock source tokens) := by
  intro front rest brace scope htokens _ hbrace hscope hend
  induction hlength : rest.length using Nat.strong_induction_on
    generalizing front rest brace scope with
  | _ length ih =>
      have hadvance : advance tokens front.length = (front ++ [brace]).length := by
        rw [htokens, advance_append, List.length_append, List.length_singleton]
      have hinside : tokens = (front ++ [brace]) ++ rest := by
        rw [htokens, List.append_assoc, List.singleton_append]
      have hnested : ReadsBlocks source tokens (front ++ [brace]).length fun scope next =>
          if _h : front.length < next ∧ next ≤ tokens.length then readBlock source tokens scope next
          else .error .descent := by
        intro front' rest' brace' scope' htokens' hstart hbrace' hscope' hend'
        have htotal := congrArg List.length (htokens.symm.trans htokens')
        simp only [List.length_append, List.length_cons, List.length_nil] at hstart htotal
        have hfurther : front.length < front'.length ∧ front'.length ≤ tokens.length := by
          rw [htokens']
          simp only [List.length_append]
          omega
        simp only [dif_pos hfurther]
        exact ih rest'.length (by omega) _ _ _ _ htokens' (Nat.zero_le _) hbrace' hscope' hend' rfl
      unfold readBlock
      rw [hadvance]
      exact readsBlock_closeBlock hscan htokens hbrace hscope
        (readsItems_readItems hnested [] hinside le_rfl hend)

/-! ## The whole source -/

theorem ofTokens_eq {text : List Char} (hscan : Token.Scan .start text tokens) :
    ofTokens source tokens = .ok (Sheet.ofTokens source tokens) := by
  have hitems := @readsItems_readItems source tokens .sheet [] tokens _ _
    (readsBlocks_readBlock hscan) [] rfl le_rfl (hasEnd_of_scan hscan)
  change ReadsItems source tokens .sheet [] [] tokens
    (readItems source tokens (readBlock source tokens) .sheet [] 0) at hitems
  rw [ofTokens, ofTokens_eq_finish]
  generalize readItems source tokens _ .sheet [] 0 = reading at hitems ⊢
  cases hitems with
  | error h =>
      have hfinish : finish source tokens .initial tokens = .error _ :=
        h .initial State.standsIn_initial
      rw [hfinish]
      rfl
  | @ok nodes passed behind hrest hend h =>
      rcases h with ⟨⟨token, more, rfl, hleft⟩, hnodes⟩
      have heof : token.kind = .eof := hleft.resolve_right fun h => h.right rfl
      have hfinish : finish source tokens .initial tokens = .ok nodes.reverse := by
        have h := hnodes .initial State.standsIn_initial
        rw [State.addAll_initial nodes.reverse, finish_eof heof] at h
        exact h
      rw [hfinish]
      simp only [ok_bind, pure_eq_ok, Except.map, List.reverse_reverse]

end Readers

/--
On every source the parser by index ends, with no check failed, in the tree or the error that the
parser ends in.
-/
theorem parse_agrees (text : String) (options : ParseOptions) :
    Cursor.parse text options = .ok (Stylesheet.parse text options) := by
  unfold Cursor.parse Stylesheet.parse
  cases htokens : tokenize text with
  | error error => rfl
  | ok tokens => exact ofTokens_eq (Token.scan_of_scanFrom htokens)

end Cursor
end Stylesheet
