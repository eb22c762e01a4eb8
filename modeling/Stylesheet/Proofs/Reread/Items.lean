import Stylesheet.Proofs.Reread.Declaration
import Stylesheet.Proofs.Reread.Media
import Stylesheet.Proofs.Shape.Basic

/-!
# Items that are read back

An item is read back behind whatever was read before it, so that a block is read back child by
child while the blocks around it wait on the stack.  Where a declaration leaves a group open, or an
at-rule without a block does, the reader would go on behind its end.
-/

namespace Stylesheet

open Node Token Run

/-! ## Groups that are closed -/

namespace Node

mutual

/-- Whether declarations, and at-rules without a block, close the groups that they open. -/
def closesGroups : Node -> Bool
  | ⟨construct, _⟩ => constructCloses construct

/-- Whether the items of a construct close the groups that they open. -/
def constructCloses : Construct Node -> Bool
  | .styleSheet nodes => allCloseGroups nodes
  | .block nodes => allCloseGroups nodes
  | .rule _ body => body.closesGroups
  | .atRule _ _ (some body) => body.closesGroups
  | .atRule name front none => depthBehind 0 (writtenConstruct (.atRule name front none)) == 0
  | .declaration important property content =>
      depthBehind 0 (writtenConstruct (.declaration important property content)) == 0
  | _ => true

/-- Whether items close the groups that they open. -/
def allCloseGroups : List Node -> Bool
  | [] => true
  | node :: rest => node.closesGroups && allCloseGroups rest

end

theorem allCloseGroups_iff {nodes : List Node} :
    allCloseGroups nodes = true <-> forall node, node ∈ nodes -> node.closesGroups = true := by
  induction nodes with
  | nil => exact ⟨fun _ _ hnil => (nomatch hnil), fun _ => rfl⟩
  | cons node rest ih => rw [allCloseGroups, Bool.and_eq_true, ih, List.forall_mem_cons]

theorem closesGroups_declaration {node : Node} (h : node.isDeclaration = true) :
    node.closesGroups = true <-> depthBehind 0 node.written = 0 := by
  rcases node with ⟨construct, location⟩
  cases construct <;> first | exact beq_iff_eq | cases h

end Node

namespace Sheet

variable {state : State} {scope : Scope} {rest tokens : List Token}

/-! ## What is left of a source -/

/-- A seamless run with the end of the source behind it. -/
def IsSource (tokens : List Token) : Prop :=
  exists body last, tokens = body ++ [last] ∧ last.kind = .eof ∧ Seamless body

theorem IsSource.tail {token : Token} (h : IsSource (token :: rest)) (heof : token.kind ≠ .eof) :
    IsSource rest := by
  rcases h with ⟨body, last, htokens, hlast, hbody⟩
  cases body with
  | nil =>
      cases htokens
      exact absurd hlast heof
  | cons first body =>
      cases htokens
      exact ⟨body, last, rfl, hlast, hbody.tail⟩

theorem IsSource.cut {front : List Token} {mark : Token} (h : IsSource (front ++ mark :: rest))
    (hmark : mark.kind = .eof ∨ isMark mark.kind = true) :
    Seamless front ∧ IsSource (mark :: rest) := by
  rcases h with ⟨body, last, htokens, hlast, hbody⟩
  rcases List.eq_nil_or_concat rest with rfl | ⟨inner, other, rfl⟩
  · rcases List.append_inj' htokens rfl with ⟨rfl, hlasts⟩
    cases hlasts
    exact ⟨hbody, [], mark, rfl, hlast, Seamless.nil⟩
  · rw [List.concat_eq_append, ← List.cons_append, ← List.append_assoc] at htokens
    rcases List.append_inj' htokens rfl with ⟨rfl, hlasts⟩
    cases hlasts
    rw [List.concat_eq_append, ← List.cons_append]
    rcases hmark with heof | hmark
    · exact absurd heof (hbody.kind_ne_eof (List.mem_append_right _ List.mem_cons_self))
    · exact ⟨hbody.front_of_mark hmark, mark :: inner, last, rfl, hlast, hbody.back⟩

theorem IsSource.hasEnd (h : IsSource tokens) : HasEnd tokens := by
  rcases h with ⟨body, last, rfl, hlast, -⟩
  exact ⟨last, List.mem_append_right _ List.mem_cons_self, hlast⟩

theorem isMark_of_endsDeclaration {kind : TokenKind} (h : endsDeclaration kind = true) :
    isMark kind = true := by
  unfold endsDeclaration at h
  split at h <;> first | rfl | cases h

/-- A run that is cut out of what is left of a source is seamless. -/
theorem IsSource.exists_isCut (h : IsSource tokens) (stops : TokenKind -> Bool)
    (hstops : forall kind, stops kind = true -> isMark kind = true) :
    exists run mark more, tokens = run ++ mark :: more ∧ Seamless run ∧ IsSource (mark :: more) ∧
      IsCut stops run mark := by
  rcases h.hasEnd.exists_isCut stops with ⟨run, mark, more, rfl, -, hcut⟩
  rcases h.cut (hcut.ends.imp_right fun hmark => hstops _ hmark.2) with ⟨hrun, hmore⟩
  exact ⟨run, mark, more, rfl, hrun, hmore, hcut⟩

/-! ## Items -/

/-- An item is read back within a scope, when it closes its groups. -/
structure IsReread (scope : Scope) (node : Node) : Prop where
  declares : node.isDeclaration = true -> scope = .declarations
  reads : node.closesGroups = true -> forall {state : State}, state.scope = scope -> forall rest,
    (node.isDeclaration = true -> IsEnd endsDeclaration rest) ->
      readItems none state (node.written ++ rest) = readItems none (state.add node) rest

theorem IsReread.not_isDeclaration {node : Node} (h : IsReread scope node)
    (hscope : scope ≠ .declarations) : node.isDeclaration = false :=
  Bool.eq_false_iff.mpr fun htrue => hscope (h.declares htrue)

theorem isReread_leaf {kind : TokenKind} {construct : Construct Node}
    (h : leaf? kind = some construct) : IsReread .sheet (ofConstruct construct) := by
  have hleaf : writtenConstruct construct = [ofKind kind] ∧ kind ≠ .eof ∧
      (ofConstruct construct).isDeclaration = false ∧
        forall {state : State}, state.scope = .sheet -> forall rest,
          step none state (ofKind kind) rest = .ok (state.add (ofConstruct construct), rest) := by
    unfold leaf? at h
    split at h <;> cases h <;> refine ⟨rfl, TokenKind.noConfusion, rfl, fun hscope rest => ?_⟩ <;>
      rw [step, hscope] <;> rfl
  rcases hleaf with ⟨hwritten, heof, hdeclaration, hstep⟩
  refine ⟨fun h => absurd h (ne_true_of_eq_false hdeclaration), fun _ state hscope rest _ => ?_⟩
  rw [written_ofConstruct, hwritten, List.singleton_append, readItems_cons heof, hstep hscope]
  rfl

theorem closesGroups_leaf {kind : TokenKind} {construct : Construct Node}
    (h : leaf? kind = some construct) : (ofConstruct construct).closesGroups = true := by
  unfold leaf? at h
  split at h <;> cases h <;> rfl

theorem isReread_declaration {run : List Token} {node : Node} (h : Declaration.IsReread run node) :
    IsReread .declarations node where
  declares := fun _ => rfl
  reads := by
    intro hgroups state hscope rest hend
    have hdepth := (closesGroups_declaration h.declaration).mp hgroups
    have huncut := h.uncut
    rcases h.reads with ⟨first, run, hwritten, hfirst, hparse⟩
    rw [hwritten] at hdepth huncut ⊢
    have htake : takeUntil endsDeclaration (depthAfter 0 first) (run ++ rest) = (run, rest) :=
      huncut.2.2.takeUntil hdepth (hend h.declaration)
    rw [List.cons_append, readItems_cons huncut.1, hfirst.step_declaration hscope, readDeclaration,
      htake]
    simp only [hparse]
    rfl

theorem isEnd_cons {stops : TokenKind -> Bool} {token : Token} (h : stops token.kind = true)
    (rest : List Token) : IsEnd stops (token :: rest) := by
  intro other hother
  cases hother
  exact Or.inr h

theorem readItems_semicolon {token : Token} (h : token.kind = .semicolon) (rest : List Token) :
    readItems none state (token :: rest) = readItems none state rest := by
  have heof : token.kind ≠ .eof := by
    rw [h]
    exact TokenKind.noConfusion
  rw [readItems_cons heof, step, h]
  rfl

/-- Items with a semicolon behind every declaration. -/
def writtenRow (nodes : List Node) : List Token :=
  nodes.flatMap fun node => node.written ++ if node.isDeclaration then [ofKind .semicolon] else []

theorem writtenRow_cons (node : Node) (nodes : List Node) :
    writtenRow (node :: nodes) =
      node.written ++ ((if node.isDeclaration then [ofKind .semicolon] else []) ++
        writtenRow nodes) := by
  rw [writtenRow, List.flatMap_cons, List.append_assoc]
  rfl

theorem writtenRow_eq {nodes : List Node}
    (h : forall node, node ∈ nodes -> node.isDeclaration = false) :
    writtenRow nodes = writtenAll nodes := by
  rw [writtenAll_eq, writtenRow]
  refine List.flatMap_congr fun node hnode => ?_
  rw [h node hnode, if_neg Bool.false_ne_true, List.append_nil]

theorem writtenBlock_concat (nodes : List Node) (last : Node) :
    writtenBlock (nodes ++ [last]) = writtenRow nodes ++ last.written := by
  induction nodes with
  | nil => rfl
  | cons node rest ih =>
      rcases List.exists_cons_of_ne_nil (List.concat_ne_nil last rest) with ⟨next, more, hmore⟩
      rw [List.cons_append, hmore, writtenBlock_cons_cons, ← hmore, ih, writtenRow_cons]
      simp only [List.append_assoc]

/-- Items are read back one after another, whatever comes behind them. -/
theorem readItems_row {nodes : List Node} (h : forall node, node ∈ nodes -> IsReread scope node)
    (hgroups : forall node, node ∈ nodes -> node.closesGroups = true) (hscope : state.scope = scope)
    (rest : List Token) :
    readItems none state (writtenRow nodes ++ rest) =
      readItems none (nodes.foldl State.add state) rest := by
  induction nodes generalizing state with
  | nil => rfl
  | cons node nodes ih =>
      have hnode := (h node List.mem_cons_self).reads (hgroups node List.mem_cons_self) hscope
      have hmore := ih (fun other hother => h other (List.mem_cons_of_mem _ hother))
        (fun other hother => hgroups other (List.mem_cons_of_mem _ hother))
        ((scope_add state node).trans hscope)
      rw [writtenRow_cons, List.append_assoc, List.append_assoc, List.foldl_cons]
      cases hdeclaration : node.isDeclaration with
      | true =>
          rw [if_pos rfl, List.singleton_append, hnode _ fun _ => isEnd_cons rfl _,
            readItems_semicolon rfl, hmore]
      | false =>
          rw [if_neg Bool.false_ne_true, List.nil_append,
            hnode _ fun htrue => absurd htrue (ne_true_of_eq_false hdeclaration), hmore]

/-- No semicolon stands behind the last item, so that something else has to end it. -/
theorem readItems_items {nodes : List Node} (h : forall node, node ∈ nodes -> IsReread scope node)
    (hgroups : forall node, node ∈ nodes -> node.closesGroups = true) (hscope : state.scope = scope)
    (hend : IsEnd endsDeclaration rest) :
    readItems none state (writtenBlock nodes ++ rest) =
      readItems none (nodes.foldl State.add state) rest := by
  rcases List.eq_nil_or_concat nodes with rfl | ⟨nodes, last, rfl⟩
  · rfl
  · rw [List.concat_eq_append] at h hgroups ⊢
    rw [List.forall_mem_append, List.forall_mem_singleton] at h hgroups
    have hlast : (nodes.foldl State.add state).scope = scope := (scope_foldl state nodes).trans hscope
    rw [writtenBlock_concat, List.append_assoc, readItems_row h.1 hgroups.1 hscope,
      h.2.reads hgroups.2 hlast rest fun _ => hend, List.foldl_concat]

/-! ## The fronts of rules and at-rules -/

/-- The front of an at-rule is read back up to what ends it. -/
structure IsFront (name : String) (front : Option Node) : Prop where
  reads : Media.prelude? none name (writtenBehind [blank] front) = front
  uncut : Uncut endsPrelude 0 (writtenBehind [blank] front)

theorem prelude?_blank (name : String) (run : List Token) :
    Media.prelude? none name (blank :: run) = Media.prelude? none name run :=
  rfl

theorem isFront_prelude? (name : String) {run : List Token} (hrun : Seamless run)
    (huncut : Uncut endsPrelude 0 run) :
    IsFront name (Media.prelude? none name run) ∧ (depthBehind 0 run = 0 ->
      depthBehind 0 (writtenBehind [blank] (Media.prelude? none name run)) = 0) := by
  cases hprelude : Media.prelude? none name run with
  | none => exact ⟨⟨rfl, trivial⟩, fun _ => rfl⟩
  | some node =>
      have hnode := Media.isPrelude_of_prelude? hrun hprelude
      refine ⟨⟨?_, TokenKind.noConfusion, fun _ => rfl, hnode.follows.uncut 0 huncut⟩, ?_⟩
      · exact (prelude?_blank name _).trans hnode.reads
      · exact hnode.follows.depth

/-- A token that begins a rule outside of declarations. -/
structure StartsRule (token : Token) : Prop extends BeginsItem token where
  eof : token.kind ≠ .eof
  cdo : token.kind ≠ .cdo
  cdc : token.kind ≠ .cdc

theorem startsRule_of_beginsPart {token : Token} (h : Selector.beginsPart token.kind = true) :
    StartsRule token := by
  constructor
  case toBeginsItem => constructor <;> (intros; intro heq; rw [heq] at h; cases h)
  all_goals
    intro heq
    rw [heq] at h
    cases h

/-- The front of a rule is read back up to its brace. -/
structure IsRuleFront (front : Node) : Prop where
  reads : Selector.prelude none front.written = front
  uncut : Uncut endsPrelude 0 front.written
  depth : depthBehind 0 front.written = 0
  starts : exists first more, front.written ++ [ofKind .leftBrace] = first :: more ∧
    StartsRule first

theorem startsRule_brace : StartsRule (ofKind .leftBrace) := by
  constructor
  case toBeginsItem => constructor <;> (intros; exact TokenKind.noConfusion)
  all_goals exact TokenKind.noConfusion

theorem isRuleFront_prelude {first mark : Token} {run more : List Token} (hrun : Seamless run)
    (hfirst : StartsRule first) (hitem : first :: rest = run ++ mark :: more)
    (hcut : IsCut endsPrelude run mark) (hmark : mark.kind = .leftBrace) :
    IsRuleFront (Selector.prelude none run) := by
  have hprelude := Selector.isPrelude_prelude hrun
  have hdepth : depthBehind 0 run = 0 := by
    rcases hcut.ends with heof | hends
    · rw [hmark] at heof
      cases heof
    · exact hends.1
  refine ⟨hprelude.reads, hprelude.follows.uncut 0 (uncut_iff.mpr hcut.passes),
    hprelude.follows.depth hdepth, ?_⟩
  rcases hprelude.starts with ⟨token, inner, hwritten, htoken⟩ | hwritten
  · exact ⟨token, _, by rw [hwritten, List.cons_append], startsRule_of_beginsPart htoken⟩
  · rw [hwritten]
    cases run with
    | nil => exact ⟨_, _, rfl, startsRule_brace⟩
    | cons _ run =>
        rcases List.cons.inj hitem with ⟨rfl, -⟩
        rcases trim_cons_of_not_trivia hfirst.isTrivia_eq run with ⟨inner, htrim⟩
        exact ⟨first, _, by rw [htrim, List.cons_append], hfirst⟩

variable {name : String} {front : Option Node}

theorem IsFront.takeUntil (h : IsFront name front)
    (hdepth : depthBehind 0 (writtenBehind [blank] front) = 0) {mark : Token}
    (hmark : endsPrelude mark.kind = true) (rest : List Token) :
    Run.takeUntil endsPrelude 0 (writtenBehind [blank] front ++ mark :: rest) =
      (writtenBehind [blank] front, mark :: rest) :=
  h.uncut.takeUntil hdepth (isEnd_cons hmark rest)

/-! ## Blocks -/

namespace Owner

/-- The tokens in front of the brace of a block. -/
def written : Owner -> List Token
  | .atRule _ name front => ofKind (.atKeyword name) :: writtenBehind [blank] front
  | .rule _ front => front.written

/-- The construct that a block belongs to. -/
def construct (body : Node) : Owner -> Construct Node
  | .atRule _ name front => .atRule name front (some body)
  | .rule _ front => .rule front body

theorem written_construct (owner : Owner) (body : Node) :
    writtenConstruct (owner.construct body) = owner.written ++ body.written := by
  cases owner <;> rfl

/-- The front of a block is read back in the scope around it. -/
inductive IsReread (outer : Scope) : Scope -> Owner -> Prop
  | atRule {keyword : Token} {name : String} {front : Option Node} (hfront : IsFront name front)
      (hdepth : depthBehind 0 (writtenBehind [blank] front) = 0) :
      IsReread outer (scopeOf name) (.atRule keyword name front)
  | rule {start : Position} {front : Node} (houter : outer ≠ .declarations)
      (hfront : IsRuleFront front) : IsReread outer .declarations (.rule start front)

/-- The front of a block and its brace open a block of the same construct. -/
theorem IsReread.readItems_opening {owner : Owner} (h : owner.IsReread state.scope scope) :
    exists opened : Owner, (forall body, opened.construct body = owner.construct body) ∧
      forall rest, readItems none state (owner.written ++ ofKind .leftBrace :: rest) =
        readItems none (state.push ⟨opened, ofKind .leftBrace, scope, []⟩) rest := by
  cases h with
  | @atRule keyword name front hfront hdepth =>
      refine ⟨.atRule (ofKind (.atKeyword name)) name front, fun _ => rfl, fun rest => ?_⟩
      have htake :=
        hfront.takeUntil hdepth (rfl : endsPrelude (ofKind .leftBrace).kind = true) rest
      rw [Owner.written, List.cons_append, readItems_cons TokenKind.noConfusion,
        step_atRule rfl htake, hfront.reads]
      rfl
  | @rule start front houter hfront =>
      rcases hfront.starts with ⟨first, more, hwritten, hfirst⟩
      refine ⟨.rule first.start front, fun _ => rfl, fun rest => ?_⟩
      have htake : takeUntil endsPrelude 0 (front.written ++ ofKind .leftBrace :: rest) =
          (front.written, ofKind .leftBrace :: rest) :=
        hfront.uncut.takeUntil hfront.depth (isEnd_cons rfl rest)
      rw [List.append_cons, hwritten, List.cons_append] at htake
      rw [Owner.written, List.append_cons, hwritten, List.cons_append, readItems_cons hfirst.eof,
        hfirst.step_rule hfirst.cdo hfirst.cdc houter, readRule, htake]
      simp only [ofKind, if_true, hfront.reads]
      rfl

end Owner

theorem close_none (block : OpenBlock) (stop atRuleStop : Position) :
    block.close none stop atRuleStop =
      ofConstruct (block.owner.construct (ofConstruct (.block block.children.reverse))) := by
  rcases block with ⟨owner, brace, scope, children⟩
  cases owner <;> rfl

theorem closesGroups_close (block : OpenBlock) (stop atRuleStop : Position) :
    (block.close none stop atRuleStop).closesGroups = allCloseGroups block.children.reverse := by
  rcases block with ⟨owner, brace, scope, children⟩
  cases owner <;> rfl

theorem not_isDeclaration_close (block : OpenBlock) (stop atRuleStop : Position) :
    (block.close none stop atRuleStop).isDeclaration = false := by
  rcases block with ⟨owner, brace, scope, children⟩
  cases owner <;> rfl

theorem written_close (block : OpenBlock) (stop atRuleStop : Position) :
    (block.close none stop atRuleStop).written = block.owner.written ++
      ofKind .leftBrace :: (writtenBlock block.children.reverse ++ [ofKind .rightBrace]) := by
  rw [close_none, written_ofConstruct, Owner.written_construct, written_ofConstruct]
  rfl

structure OpenBlock.IsReread (outer : Scope) (block : OpenBlock) : Prop where
  owner : block.owner.IsReread outer block.scope
  children : forall child, child ∈ block.children -> Sheet.IsReread block.scope child

/-- A block is read back child by child, up to its brace. -/
theorem isReread_close {outer : Scope} {block : OpenBlock} (stop atRuleStop : Position)
    (h : block.IsReread outer) : IsReread outer (block.close none stop atRuleStop) := by
  refine ⟨fun htrue => ?_, fun hgroups state hscope rest _ => ?_⟩
  · rw [not_isDeclaration_close] at htrue
    cases htrue
  · have hnodes : forall child, child ∈ block.children.reverse -> IsReread block.scope child :=
      fun child hchild => h.children child (List.mem_reverse.mp hchild)
    rw [closesGroups_close] at hgroups
    have howner := h.owner
    rw [← hscope] at howner
    rcases howner.readItems_opening with ⟨opened, hopened, hreads⟩
    rw [written_close, List.append_assoc, List.cons_append, List.append_assoc,
      List.singleton_append, hreads, readItems_items hnodes (allCloseGroups_iff.mp hgroups) rfl
        (isEnd_cons rfl rest), foldl_add_push, readItems_brace _ rfl, close_none, close_none,
      hopened, List.append_nil, List.reverse_reverse]

/-! ## At-rules without a block -/

theorem closesGroups_bareAtRule :
    (ofConstruct (.atRule name front none)).closesGroups = true <->
      depthBehind 0 (writtenBehind [blank] front) = 0 := by
  change (depthBehind 0 (writtenConstruct (.atRule name front none)) == 0) = true <-> _
  have hwritten : writtenConstruct (.atRule name front none) =
      ofKind (.atKeyword name) :: (writtenBehind [blank] front ++ [ofKind .semicolon]) := rfl
  rw [hwritten, ← List.cons_append, depthBehind_append, beq_iff_eq]
  exact Iff.rfl

theorem isReread_bareAtRule (hfront : IsFront name front) :
    IsReread scope (ofConstruct (.atRule name front none)) where
  declares := fun h => nomatch h
  reads := by
    intro hgroups state _ rest _
    have hwritten : (ofConstruct (.atRule name front none)).written =
        ofKind (.atKeyword name) :: (writtenBehind [blank] front ++ [ofKind .semicolon]) :=
      written_ofConstruct _
    have hdepth := closesGroups_bareAtRule.mp hgroups
    have htake := hfront.takeUntil hdepth (rfl : endsPrelude (ofKind .semicolon).kind = true) rest
    rw [hwritten, List.cons_append, List.append_assoc, List.singleton_append,
      readItems_cons TokenKind.noConfusion, step_atRule rfl htake, hfront.reads]
    simp only [bareAtRule, spanning_none]
    rfl

end Sheet
end Stylesheet
