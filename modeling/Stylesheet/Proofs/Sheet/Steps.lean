import Stylesheet.Proofs.Shape.Basic
import Stylesheet.Proofs.Token.Stops
import Stylesheet.Proofs.Token.Tiling
import Stylesheet.Sheet

/-!
# Reading a stylesheet item by item

A step reads one item, and the token that it begins with says what kind of item it is.  Main
statements: in front of the end of the source every run ends somewhere, and an item that no mark
begins is read as a declaration where declarations stand, and as a rule elsewhere.
-/

namespace Stylesheet
namespace Sheet

open Run

variable {source : SourceName} {state : State} {first token : Token} {rest : List Token}

theorem readItems_eof (h : token.kind = .eof) (rest : List Token) :
    readItems source state (token :: rest) = .ok state := by
  rw [readItems, if_pos h]

theorem readItems_cons (h : token.kind ≠ .eof) :
    readItems source state (token :: rest) =
      (step source state token rest).bind fun (after, more) => readItems source after more := by
  rw [readItems, if_neg h]
  split
  · rename_i hstep
    rw [hstep]
    rfl
  · rename_i hstep
    rw [hstep]
    rfl

/-! ## Open blocks -/

theorem scope_add (state : State) (node : Node) : (state.add node).scope = state.scope := by
  rcases state with ⟨children, blocks⟩
  cases blocks <;> rfl

theorem scope_foldl (state : State) (nodes : List Node) :
    (nodes.foldl State.add state).scope = state.scope := by
  induction nodes generalizing state with
  | nil => rfl
  | cons node rest ih => exact (ih (state.add node)).trans (scope_add state node)

/-- The nodes that are read one after another, the latest first. -/
theorem foldl_add_push (state : State) (block : OpenBlock) (nodes : List Node) :
    nodes.foldl State.add (state.push block) =
      state.push { block with children := nodes.reverse ++ block.children } := by
  induction nodes generalizing block with
  | nil => rfl
  | cons node rest ih =>
      rw [List.foldl_cons, List.reverse_cons, List.append_assoc]
      exact ih { block with children := node :: block.children }

theorem foldl_add_sheet (children nodes : List Node) :
    nodes.foldl State.add ⟨children, []⟩ = ⟨nodes.reverse ++ children, []⟩ := by
  induction nodes generalizing children with
  | nil => rfl
  | cons node rest ih =>
      rw [List.foldl_cons, List.reverse_cons, List.append_assoc]
      exact ih (node :: children)

/-- A block is closed by its brace and becomes a child of what is around it. -/
theorem readItems_brace (block : OpenBlock) {brace : Token} (hbrace : brace.kind = .rightBrace)
    (rest : List Token) :
    readItems source (state.push block) (brace :: rest) =
      readItems source (state.add (block.close source brace.stop brace.stop)) rest := by
  have heof : brace.kind ≠ .eof := by
    rw [hbrace]
    exact TokenKind.noConfusion
  rw [readItems_cons heof, step, hbrace]
  rfl

/-- What holds of what has been read holds when the end of the source closes the open blocks. -/
theorem forall_closeAll {P : Scope -> Node -> Prop} {I : List OpenBlock -> Prop}
    {stop atRuleStop : Position} {children : List Node} {inner : Option Node}
    {blocks : List OpenBlock}
    (hclose : forall (block : OpenBlock) (outer : List OpenBlock) (inner : List Node),
      I (block :: outer) -> (forall node, node ∈ inner -> P block.scope node) ->
        I outer ∧ P (State.scope ⟨[], outer⟩)
          (OpenBlock.close source stop atRuleStop
            { block with children := inner ++ block.children }))
    (hchildren : forall child, child ∈ children -> P .sheet child)
    (hinner : forall node, node ∈ inner -> P (State.scope ⟨[], blocks⟩) node) (hblocks : I blocks) :
    forall child, child ∈ closeAll source stop atRuleStop children inner blocks ->
      P .sheet child := by
  induction blocks generalizing inner with
  | nil =>
      intro child hchild
      rcases List.mem_append.mp hchild with hchild | hchild
      · exact hinner child (Option.mem_toList.mp hchild)
      · exact hchildren child hchild
  | cons block outer ih =>
      rcases hclose block outer inner.toList hblocks fun node hnode =>
        hinner node (Option.mem_toList.mp hnode) with ⟨houter, hclosed⟩
      refine ih ?_ houter
      rintro _ ⟨⟩
      exact hclosed

/-! ## The end of the source -/

theorem not_eof_of_mem_takeUntil {stops : TokenKind -> Bool} {depth : Nat} {run : List Token}
    (h : token ∈ (takeUntil stops depth run).1) : token.kind ≠ .eof := by
  rcases List.append_of_mem h with ⟨front, back, hrun⟩
  exact (uncut_iff.mp (uncut_takeUntil stops depth run) front token back hrun).left

theorem append_of_takeUntil {stops : TokenKind -> Bool} {depth : Nat} {tokens run more : List Token}
    (h : takeUntil stops depth tokens = (run, more)) :
    tokens = run ++ more ∧ forall token, token ∈ run -> token.kind ≠ .eof := by
  have happend := takeUntil_append stops depth tokens
  have heof : forall token, token ∈ (takeUntil stops depth tokens).1 -> token.kind ≠ .eof :=
    fun _ => not_eof_of_mem_takeUntil
  rw [h] at happend heof
  exact ⟨happend.symm, heof⟩

/-- The end of the source stands somewhere in a run. -/
def HasEnd (run : List Token) : Prop :=
  exists token, token ∈ run ∧ token.kind = .eof

theorem hasEnd_of_scan {text : List Char} {tokens : List Token}
    (h : Token.Scan .start text tokens) : HasEnd tokens := by
  rcases h.ends_at_eof with ⟨body, last, rfl, hlast, _⟩
  exact ⟨last, List.mem_append_right _ List.mem_cons_self, hlast⟩

theorem HasEnd.ne_nil (h : HasEnd rest) : rest ≠ [] := by
  rintro rfl
  rcases h with ⟨token, hmem, _⟩
  cases hmem

theorem HasEnd.cons (h : HasEnd rest) (token : Token) : HasEnd (token :: rest) := by
  rcases h with ⟨last, hmem, hlast⟩
  exact ⟨last, List.mem_cons_of_mem token hmem, hlast⟩

theorem HasEnd.of_append {front : List Token} (h : HasEnd (front ++ rest))
    (hfront : forall token, token ∈ front -> token.kind ≠ .eof) : HasEnd rest := by
  rcases h with ⟨last, hmem, hlast⟩
  rcases List.mem_append.mp hmem with hmem | hmem
  · exact absurd hlast (hfront last hmem)
  · exact ⟨last, hmem, hlast⟩

theorem HasEnd.tail (h : HasEnd (token :: rest)) (heof : token.kind ≠ .eof) : HasEnd rest :=
  HasEnd.of_append h (List.forall_mem_singleton.mpr heof)

/-- What the scanner of runs takes leaves the end of the source. -/
theorem HasEnd.takeUntil (h : HasEnd rest) (stops : TokenKind -> Bool) (depth : Nat) :
    HasEnd (takeUntil stops depth rest).2 := by
  rw [← takeUntil_append stops depth rest] at h
  exact h.of_append fun _ => not_eof_of_mem_takeUntil

/-- In front of the end of the source every run ends somewhere. -/
theorem HasEnd.exists_isCut (h : HasEnd rest) (stops : TokenKind -> Bool) :
    exists run mark more, rest = run ++ mark :: more ∧ HasEnd (mark :: more) ∧
      IsCut stops run mark := by
  have hbehind := h.takeUntil stops 0
  cases htake : Run.takeUntil stops 0 rest with
  | mk run after =>
      rw [htake] at hbehind
      rcases List.exists_cons_of_ne_nil hbehind.ne_nil with ⟨mark, more, rfl⟩
      rcases takeUntil_eq_iff.mp htake with ⟨hrest, hcut⟩
      exact ⟨run, mark, more, hrest, hbehind, hcut⟩

/-! ## Items that no mark begins -/

/-- A token that begins an item without a mark in front: a declaration, or else a rule. -/
structure BeginsItem (token : Token) : Prop where
  rightBrace : token.kind ≠ .rightBrace
  whitespace : token.kind ≠ .whitespace
  semicolon : token.kind ≠ .semicolon
  comment : forall content, token.kind ≠ .comment content
  atKeyword : forall name, token.kind ≠ .atKeyword name

theorem BeginsItem.endsDeclaration_eq (h : BeginsItem first) :
    endsDeclaration first.kind = false := by
  unfold endsDeclaration
  split
  · exact absurd ‹_› h.semicolon
  · exact absurd ‹_› h.rightBrace
  · rfl

theorem BeginsItem.isTrivia_eq (h : BeginsItem first) : first.isTrivia = false := by
  unfold Token.isTrivia TokenKind.isTrivia
  split
  · exact absurd ‹_› h.whitespace
  · exact absurd ‹_› (h.comment _)
  · rfl

theorem BeginsItem.step_declaration (h : BeginsItem first)
    (hscope : state.scope = .declarations) :
    step source state first rest = readDeclaration source state first rest := by
  unfold step
  split
  · exact absurd ‹_› h.rightBrace
  · exact absurd ‹_› h.whitespace
  · exact absurd ‹_› h.semicolon
  · exact absurd ‹_› (h.comment _)
  · exact absurd ‹_› (h.comment _)
  · exact absurd ‹_› (h.atKeyword _)
  · rfl
  all_goals simp_all

theorem BeginsItem.step_rule (h : BeginsItem first) (hcdo : first.kind ≠ .cdo)
    (hcdc : first.kind ≠ .cdc) (hscope : state.scope ≠ .declarations) :
    step source state first rest = readRule source state first rest := by
  unfold step
  split
  · exact absurd ‹_› h.rightBrace
  · exact absurd ‹_› h.whitespace
  · exact absurd ‹_› h.semicolon
  · exact absurd ‹_› (h.comment _)
  · exact absurd ‹_› (h.comment _)
  · exact absurd ‹_› (h.atKeyword _)
  · exact absurd ‹_› hscope
  · exact absurd ‹_› hcdo
  · exact absurd ‹_› hcdc
  · exact absurd ‹_› hcdo
  · exact absurd ‹_› hcdc
  · rfl

/-! ## At-rules -/

/-- The step that reads an at-rule behind its keyword. -/
theorem step_atRule {name : String} {run more : List Token} {mark : Token}
    (hkind : first.kind = .atKeyword name)
    (htake : takeUntil endsPrelude 0 rest = (run, mark :: more)) (state : State) :
    step source state first rest =
      .ok (match mark.kind with
        | .leftBrace =>
            (state.push ⟨.atRule first name (Media.prelude? source name run), mark,
              scopeOf name, []⟩, more)
        | .semicolon =>
            (state.add (bareAtRule source name (Media.prelude? source name run)
              (first :: run ++ [mark])), more)
        | _ =>
            (state.add (bareAtRule source name (Media.prelude? source name run) (first :: run)),
              mark :: more)) := by
  simp only [step, hkind, readAtRule, htake]
  cases mark.kind <;> rfl

/-! ## What a step does -/

/-- The tokens that may stand between the items of a scope. -/
def Scope.skips (scope : Scope) : TokenKind -> Bool
  | .whitespace => true
  | .comment _ => true
  | .semicolon => true
  | .eof => true
  | .cdo => scope == .rules
  | .cdc => scope == .rules
  | _ => false

theorem Scope.skips_of_isTrivia (scope : Scope) {token : Token} (h : token.isTrivia = true) :
    scope.skips token.kind = true := by
  unfold Token.isTrivia TokenKind.isTrivia at h
  unfold skips
  split at h <;> rename_i hkind
  · rw [hkind]
  · rw [hkind]
  · cases h

/-- The node that a token is by itself outside of every block. -/
def leaf? : TokenKind -> Option (Construct Node)
  | .comment content => some (.comment content)
  | .cdo => some .cdo
  | .cdc => some .cdc
  | _ => none

/-- What a step that succeeds reads, by the token that the item begins with. -/
inductive Steps (source : SourceName) (state : State) (first : Token) (rest : List Token) :
    State -> List Token -> Prop
  | skip (hskips : state.scope.skips first.kind = true) :
      Steps source state first rest state rest
  | leaf {construct : Construct Node} (hscope : state.scope = .sheet)
      (hleaf : leaf? first.kind = some construct) :
      Steps source state first rest (state.add (Node.ofToken source first construct)) rest
  | close {block : OpenBlock} {outer : List OpenBlock} (hkind : first.kind = .rightBrace)
      (hblocks : state.blocks = block :: outer) :
      Steps source state first rest
        (State.add ⟨state.children, outer⟩ (block.close source first.stop first.stop)) rest
  | atRule {name : String} {run more : List Token} {brace : Token}
      (hkind : first.kind = .atKeyword name)
      (htake : takeUntil endsPrelude 0 rest = (run, brace :: more))
      (hbrace : brace.kind = .leftBrace) :
      Steps source state first rest
        (state.push ⟨.atRule first name (Media.prelude? source name run), brace, scopeOf name, []⟩)
        more
  | bareAtRule {name : String} {run more : List Token} {mark : Option Token}
      (hkind : first.kind = .atKeyword name)
      (htake : takeUntil endsPrelude 0 rest = (run, mark.toList ++ more))
      (hmark : forall token, token ∈ mark -> token.kind = .semicolon) :
      Steps source state first rest
        (state.add (Sheet.bareAtRule source name (Media.prelude? source name run)
          (first :: run ++ mark.toList))) more
  | rule {run more : List Token} {brace : Token} (hfirst : BeginsItem first)
      (hcdo : first.kind ≠ .cdo) (hcdc : first.kind ≠ .cdc) (hscope : state.scope ≠ .declarations)
      (htake : takeUntil endsPrelude 0 (first :: rest) = (run, brace :: more))
      (hbrace : brace.kind = .leftBrace) :
      Steps source state first rest
        (state.push ⟨.rule first.start (Selector.prelude source run), brace, .declarations, []⟩)
        more
  | declaration {run more : List Token} {node : Node} (hfirst : BeginsItem first)
      (hscope : state.scope = .declarations)
      (htake : takeUntil endsDeclaration (depthAfter 0 first) rest = (run, more))
      (hnode : Declaration.parse source first run = .ok node) :
      Steps source state first rest (state.add node) more

theorem steps_readAtRule {name : String} (hkind : first.kind = .atKeyword name) :
    Steps source state first rest (readAtRule source state first name rest).1
      (readAtRule source state first name rest).2 := by
  have hbare : forall {run more : List Token}, takeUntil endsPrelude 0 rest = (run, more) ->
      Steps source state first rest (state.add (Sheet.bareAtRule source name
        (Media.prelude? source name run) (first :: run))) more := by
    intro run more htake
    have hsteps := @Steps.bareAtRule source state first rest name run more none hkind htake nofun
    rw [Option.toList_none, List.append_nil] at hsteps
    exact hsteps
  cases htake : takeUntil endsPrelude 0 rest with
  | mk run behind =>
      simp only [readAtRule, htake]
      split
      · rename_i mark more
        split
        · exact .atRule hkind htake ‹_›
        · refine @Steps.bareAtRule source state first rest name run more (some mark) hkind htake ?_
          rintro _ ⟨⟩
          exact ‹_›
        · exact hbare htake
      · exact hbare htake

theorem steps_readRule {after : State} {more : List Token} (hfirst : BeginsItem first)
    (hcdo : first.kind ≠ .cdo) (hcdc : first.kind ≠ .cdc) (hscope : state.scope ≠ .declarations)
    (h : readRule source state first rest = .ok (after, more)) :
    Steps source state first rest after more := by
  cases htake : takeUntil endsPrelude 0 (first :: rest) with
  | mk run behind =>
      simp only [readRule, htake] at h
      split at h
      · split at h
        · cases h
          exact .rule hfirst hcdo hcdc hscope htake ‹_›
        · cases h
      · cases h

theorem steps_readDeclaration {after : State} {more : List Token} (hfirst : BeginsItem first)
    (hscope : state.scope = .declarations)
    (h : readDeclaration source state first rest = .ok (after, more)) :
    Steps source state first rest after more := by
  cases htake : takeUntil endsDeclaration (depthAfter 0 first) rest with
  | mk run behind =>
      simp only [readDeclaration, htake] at h
      split at h
      · cases h
        exact .declaration hfirst hscope htake ‹_›
      · cases h

/-- A step that succeeds is one of those above. -/
theorem steps_of_step {after : State} {more : List Token}
    (h : step source state first rest = .ok (after, more)) :
    Steps source state first rest after more := by
  have hskip : forall {scope : Scope}, state.scope = scope -> scope.skips first.kind = true ->
      Steps source state first rest state rest := by
    rintro _ rfl hskips
    exact .skip hskips
  unfold step at h
  split at h
  · unfold readBrace at h
    split at h
    · cases h
    · cases h
      exact .close ‹_› ‹_›
  · cases h
    exact hskip rfl (by rw [‹first.kind = _›]; rfl)
  · cases h
    exact hskip rfl (by rw [‹first.kind = _›]; rfl)
  · cases h
    exact .leaf ‹_› (by rw [‹first.kind = _›]; rfl)
  · cases h
    exact hskip rfl (by rw [‹first.kind = _›]; rfl)
  · have hread := @steps_readAtRule source state first rest _ ‹_›
    rw [Except.ok.inj h] at hread
    exact hread
  · exact steps_readDeclaration ⟨‹_›, ‹_›, ‹_›, ‹_›, ‹_›⟩ ‹_› h
  · cases h
    exact .leaf ‹_› (by rw [‹first.kind = _›]; rfl)
  · cases h
    exact .leaf ‹_› (by rw [‹first.kind = _›]; rfl)
  · cases h
    exact hskip ‹_› (by rw [‹first.kind = _›]; rfl)
  · cases h
    exact hskip ‹_› (by rw [‹first.kind = _›]; rfl)
  · refine steps_readRule ⟨‹_›, ‹_›, ‹_›, ‹_›, ‹_›⟩ ?_ ?_ ‹_› h <;>
      intro hkind <;> cases hscope : state.scope <;> simp_all

end Sheet
end Stylesheet
