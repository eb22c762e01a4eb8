import Stylesheet.Proofs.Reread.Sheet

/-!
# Items that leave a group open

Only the end of the source ends an item that leaves a group open, so that such an item is the last
one.  When the tokens of the stylesheet are read again, the marks that are written behind the item
are read into it.  Main statement: a stylesheet is read back from its tokens just when its items
close their groups.
-/

namespace Stylesheet
namespace Sheet

open Node Token Run

variable {state : State} {rest tokens : List Token}

/-! ## The items of a state -/

/-- The items of the stylesheet when the source ends here. -/
def State.nodes (state : State) : List Node :=
  (closeAll none .start .start state.children none state.blocks).reverse

theorem closeAll_none (stop atRuleStop : Position) (children : List Node) (inner : Option Node)
    (blocks : List OpenBlock) :
    closeAll none stop atRuleStop children inner blocks =
      closeAll none .start .start children inner blocks := by
  induction blocks generalizing inner with
  | nil => rfl
  | cons block outer ih => simp only [closeAll, ih, close_none]

theorem ofTokens_eq_ok_iff {tree : Node} :
    ofTokens none tokens = .ok tree <->
      exists state, readItems none .initial tokens = .ok state ∧
        tree = ofConstruct (.styleSheet state.nodes) := by
  unfold ofTokens
  cases readItems none .initial tokens with
  | error error => exact ⟨fun h => (nomatch h), fun ⟨_, h, _⟩ => (nomatch h)⟩
  | ok state =>
      simp only [Except.ok.injEq, exists_eq_left', spanning_none, closeAll_none (stopOf tokens),
        State.nodes]
      exact eq_comm

/-- A block that is open is a child of what is around it. -/
theorem nodes_push (state : State) (block : OpenBlock) :
    (state.push block).nodes = (state.add (block.close none .start .start)).nodes := by
  rcases state with ⟨children, _ | ⟨outer, blocks⟩⟩ <;> rfl

theorem nodes_add_injective {left right : Node}
    (h : (state.add left).nodes = (state.add right).nodes) : left = right := by
  rcases state with ⟨children, blocks⟩
  induction blocks generalizing left right with
  | nil => exact (List.cons.inj (List.reverse_injective h)).1
  | cons block outer ih =>
      have hadd : forall node, State.add ⟨children, block :: outer⟩ node =
          State.push ⟨children, outer⟩ { block with children := node :: block.children } :=
        fun _ => rfl
      rw [hadd, hadd, nodes_push, nodes_push] at h
      have hclosed := ih h
      rw [close_none, close_none] at hclosed
      rcases block with ⟨owner, brace, scope, inner⟩
      cases owner <;>
        simp only [Owner.construct, ofConstruct, Node.mk.injEq, Construct.atRule.injEq,
          Construct.rule.injEq, Construct.block.injEq, Option.some.injEq, true_and, and_true,
          List.reverse_inj, List.cons.injEq] at hclosed <;>
        exact hclosed

/-- Braces close blocks that the end of the source would close. -/
theorem nodes_of_braces {closers : List Token} {last : Token} {after : State}
    (hclosers : forall token, token ∈ closers -> token.kind = .rightBrace) (hlast : last.kind = .eof)
    (h : readItems none state (closers ++ [last]) = .ok after) : after.nodes = state.nodes := by
  induction closers generalizing state with
  | nil =>
      rw [List.nil_append, readItems_eof hlast] at h
      cases h
      rfl
  | cons brace closers ih =>
      have hbrace := hclosers brace List.mem_cons_self
      have hmore := fun token htoken => hclosers token (List.mem_cons_of_mem _ htoken)
      rcases state with ⟨children, _ | ⟨block, outer⟩⟩
      · have heof : brace.kind ≠ .eof := by
          rw [hbrace]
          exact TokenKind.noConfusion
        rw [List.cons_append, readItems_cons heof, step, hbrace] at h
        cases h
      · change readItems none (State.push ⟨children, outer⟩ block) (brace :: (closers ++ [last])) =
          .ok after at h
        rw [readItems_brace _ hbrace, close_none, ← close_none block .start .start] at h
        rw [ih hmore h, ← nodes_push]
        rfl

/-! ## What has been read -/

/-- The tokens of what has been read, up to where the next item begins. -/
def writtenOpen (children : List Node) : List OpenBlock -> List Token
  | [] => writtenRow children.reverse
  | block :: outer =>
      writtenOpen children outer ++
        (block.owner.written ++ ofKind .leftBrace :: writtenRow block.children.reverse)

/-- Every item that has been read closes its groups. -/
structure State.Closes (state : State) : Prop where
  children : forall child, child ∈ state.children -> child.closesGroups = true
  blocks : forall block, block ∈ state.blocks -> forall child, child ∈ block.children ->
    child.closesGroups = true

theorem closes_initial : State.initial.Closes :=
  ⟨fun _ hnil => (nomatch hnil), fun _ hnil => (nomatch hnil)⟩

theorem State.Closes.add {child : Node} (h : state.Closes) (hchild : child.closesGroups = true) :
    (state.add child).Closes := by
  rcases state with ⟨children, _ | ⟨block, outer⟩⟩
  · exact ⟨List.forall_mem_cons.mpr ⟨hchild, h.children⟩, h.blocks⟩
  · rcases List.forall_mem_cons.mp h.blocks with ⟨hblock, houter⟩
    exact ⟨h.children, List.forall_mem_cons.mpr
      ⟨List.forall_mem_cons.mpr ⟨hchild, hblock⟩, houter⟩⟩

theorem State.Closes.close {block : OpenBlock} {outer : List OpenBlock} {children : List Node}
    (h : State.Closes ⟨children, block :: outer⟩) (stop : Position) :
    (State.add ⟨children, outer⟩ (block.close none stop stop)).Closes := by
  rcases List.forall_mem_cons.mp h.blocks with ⟨hblock, houter⟩
  have hstate : State.Closes ⟨children, outer⟩ := ⟨h.children, houter⟩
  refine hstate.add ?_
  rw [closesGroups_close, allCloseGroups_iff]
  exact fun child hchild => hblock child (List.mem_reverse.mp hchild)

theorem closesGroups_closeAll {children : List Node} {inner : Option Node} {blocks : List OpenBlock}
    (hinner : forall node, node ∈ inner -> node.closesGroups = true)
    (h : State.Closes ⟨children, blocks⟩) :
    forall node, node ∈ closeAll none .start .start children inner blocks ->
      node.closesGroups = true := by
  refine forall_closeAll (P := fun _ node => node.closesGroups = true)
    (I := fun blocks => forall block, block ∈ blocks ->
      forall child, child ∈ block.children -> child.closesGroups = true)
    (fun block outer inner hblocks hinner => ?_) h.children hinner h.blocks
  rcases List.forall_mem_cons.mp hblocks with ⟨hblock, houter⟩
  refine ⟨houter, ?_⟩
  rw [closesGroups_close, allCloseGroups_iff]
  intro child hchild
  exact List.forall_mem_append.mpr ⟨hinner, hblock⟩ child (List.mem_reverse.mp hchild)

theorem State.Closes.nodes (h : state.Closes) :
    forall node, node ∈ state.nodes -> node.closesGroups = true := by
  have hnone : forall node : Node, node ∈ none -> node.closesGroups = true := by
    rintro _ ⟨⟩
  exact fun node hnode => closesGroups_closeAll hnone h node (List.mem_reverse.mp hnode)

/-- What has been read is read again, up to where the next item begins. -/
theorem exists_readItems_open (hstate : state.IsReread) (hcloses : state.Closes) :
    exists again : State, again.scope = state.scope ∧
      (forall node, (again.add node).nodes = (state.add node).nodes) ∧
        forall rest, readItems none .initial (writtenOpen state.children state.blocks ++ rest) =
          readItems none again rest := by
  rcases state with ⟨children, blocks⟩
  induction blocks with
  | nil =>
      refine ⟨⟨children, []⟩, rfl, fun _ => rfl, fun rest => ?_⟩
      have hread := @readItems_row .initial .sheet children.reverse
        (fun child hchild => hstate.children child (List.mem_reverse.mp hchild))
        (fun child hchild => hcloses.children child (List.mem_reverse.mp hchild)) rfl rest
      rw [writtenOpen, hread, State.initial, foldl_add_sheet, List.reverse_reverse,
        List.append_nil]
  | cons block outer ih =>
      rcases hstate with ⟨hchildren, hblock, houter⟩
      rcases List.forall_mem_cons.mp hcloses.blocks with ⟨hblockCloses, houterCloses⟩
      rcases ih ⟨hchildren, houter⟩ ⟨hcloses.children, houterCloses⟩ with
        ⟨again, hscope, hnodes, hreads⟩
      have hsame : State.scope ⟨children, outer⟩ = State.scope ⟨[], outer⟩ := by
        cases outer <;> rfl
      have howner := hblock.owner
      rw [← hsame, ← hscope] at howner
      rcases howner.readItems_opening with ⟨opened, hopened, hopening⟩
      refine ⟨again.push ⟨opened, ofKind .leftBrace, block.scope, block.children⟩, rfl,
        fun node => ?_, fun rest => ?_⟩
      · have hadd : forall (state : State) (block : OpenBlock), ((state.push block).add node) =
            state.push { block with children := node :: block.children } := fun _ _ => rfl
        have hpush : State.mk children (block :: outer) = State.push ⟨children, outer⟩ block := rfl
        rw [hpush, hadd, hadd, nodes_push, nodes_push, hnodes, close_none, close_none, hopened]
      · have hrow := @readItems_row (again.push ⟨opened, ofKind .leftBrace, block.scope, []⟩)
          block.scope block.children.reverse
          (fun child hchild => hblock.children child (List.mem_reverse.mp hchild))
          (fun child hchild => hblockCloses child (List.mem_reverse.mp hchild)) rfl rest
        rw [writtenOpen, List.append_assoc, hreads, List.append_assoc, List.cons_append, hopening,
          hrow, foldl_add_push, List.append_nil, List.reverse_reverse]

/-- The tokens of a stylesheet are those of what was read before its last item, and so on. -/
theorem writtenAll_nodes_add (hstate : state.IsReread) (node : Node) :
    writtenAll (state.add node).nodes = writtenOpen state.children state.blocks ++
      (node.written ++ List.replicate state.blocks.length (ofKind .rightBrace)) := by
  rcases state with ⟨children, blocks⟩
  induction blocks generalizing node with
  | nil =>
      have hrow : writtenRow children.reverse = writtenAll children.reverse :=
        writtenRow_eq fun child hchild =>
          (hstate.children child (List.mem_reverse.mp hchild)).not_isDeclaration Scope.noConfusion
      change writtenAll (node :: children).reverse = _
      rw [writtenOpen, hrow, List.reverse_cons, writtenAll_append]
      rfl
  | cons block outer ih =>
      rcases hstate with ⟨hchildren, -, houter⟩
      have hadd : State.add ⟨children, block :: outer⟩ node =
          State.push ⟨children, outer⟩ { block with children := node :: block.children } := rfl
      rw [hadd, nodes_push, ih _ ⟨hchildren, houter⟩, written_close, List.reverse_cons,
        writtenBlock_concat, writtenOpen, List.length_cons, List.replicate_succ]
      simp only [List.append_assoc, List.cons_append, List.nil_append]

/-! ## Items that overrun -/

/-- A token that ends a declaration, or the item around it. -/
theorem significant_mark {mark : Token} (h : endsDeclaration mark.kind = true)
    (marks : List Token) : significant (mark :: marks) = mark :: significant marks := by
  refine Declaration.significant_cons ?_ marks
  unfold endsDeclaration at h
  unfold Token.isTrivia
  split at h <;> first | (rw [‹mark.kind = _›]; rfl) | cases h

/-- With a group open a mark ends nothing. -/
theorem exists_takeUntil_marks (stops : TokenKind -> Bool) {depth : Nat} (hdepth : depth ≠ 0)
    {mark last : Token} (hmark : mark.kind ≠ .eof) (marks : List Token) (hlast : last.kind = .eof) :
    exists taken more, marks = taken ++ more ∧
      takeUntil stops depth (mark :: (marks ++ [last])) = (mark :: taken, more ++ [last]) := by
  have hgo : (mark.kind = .eof || (depth == 0 && stops mark.kind)) = false := by
    rw [Bool.or_eq_false_iff, decide_eq_false_iff_not, Bool.and_eq_false_iff]
    exact ⟨hmark, Or.inl (beq_false_of_ne hdepth)⟩
  have hmarks := takeUntil_append stops (depthAfter depth mark) marks
  have hrest := takeUntil_append stops (depthAfter depth mark) (marks ++ [last])
  rw [takeUntil_concat hlast] at hrest
  refine ⟨_, _, hmarks.symm, ?_⟩
  rw [takeUntil, hgo, if_neg Bool.false_ne_true]
  refine Prod.ext (congrArg (mark :: ·) (takeUntil_concat hlast _ marks)) ?_
  refine List.append_cancel_left (hrest.trans ?_)
  rw [← List.append_assoc, hmarks]

/-- A declaration that leaves a group open is read again with a brace in it. -/
theorem exists_other_declaration {run closers : List Token} {node : Node} {brace last : Token}
    {after : State} (hscope : state.scope = .declarations) (hnode : Declaration.IsReread run node)
    (hdepth : depthBehind 0 node.written ≠ 0)
    (hclosers : forall token, token ∈ brace :: closers -> token.kind = .rightBrace)
    (hlast : last.kind = .eof)
    (hsource : IsSource (node.written ++ brace :: (closers ++ [last])))
    (h : readItems none state (node.written ++ brace :: (closers ++ [last])) = .ok after) :
    exists other, other ≠ node ∧ after.nodes = (state.add other).nodes := by
  have hbrace := hclosers brace List.mem_cons_self
  have heof : brace.kind ≠ .eof := by
    rw [hbrace]
    exact TokenKind.noConfusion
  rcases exists_takeUntil_marks endsDeclaration hdepth heof closers hlast with
    ⟨taken, more, rfl, htaken⟩
  have htake := hnode.uncut.takeUntil_append (brace :: (taken ++ more ++ [last]))
  rw [htaken] at htake
  rcases hsource.exists_isCut endsDeclaration fun _ => isMark_of_endsDeclaration with
    ⟨whole, mark, behind, htokens, hwhole, -, hcut⟩
  rw [htokens, hcut.takeUntil behind, Prod.mk.injEq] at htake
  rcases htake with ⟨rfl, hbehind⟩
  rcases hnode.reads with ⟨first, run, hwritten, hfirst, hparse⟩
  rw [htokens, hwritten, List.cons_append, List.cons_append] at h
  have hfirstEof : first.kind ≠ .eof := by
    have huncut := hnode.uncut
    rw [hwritten] at huncut
    exact huncut.1
  rw [hwritten, List.cons_append] at hwhole hcut
  rw [readItems_cons hfirstEof, hfirst.step_declaration hscope, readDeclaration,
    hcut.takeUntil_tail behind] at h
  simp only at h
  cases hagain : Declaration.parse none first (run ++ brace :: taken) with
  | error error =>
      rw [hagain] at h
      cases h
  | ok other =>
      rw [hagain, hbehind] at h
      have hmore : forall token, token ∈ more -> token.kind = .rightBrace :=
        fun token htoken => hclosers token
          (List.mem_cons_of_mem _ (List.mem_append_right _ htoken))
      refine ⟨other, ?_, nodes_of_braces hmore hlast h⟩
      rintro rfl
      have hreread := Declaration.isReread_parse hwhole hfirst (uncut_iff.mpr hcut.passes) hagain
      have hlength := hreread.tallies.length_eq
      have hmark : endsDeclaration brace.kind = true := by rw [hbrace]; rfl
      rw [← List.cons_append, ← hwritten, significant_append, significant_mark hmark,
        List.length_append, List.length_cons] at hlength
      omega

/-- An at-rule that leaves a group open is read again with its semicolon in its prelude. -/
theorem exists_other_atRule {closers : List Token} {name : String} {front : Option Node}
    {last : Token} {after : State} (hfront : IsFront name front)
    (hdepth : depthBehind 0 (writtenBehind [blank] front) ≠ 0)
    (hclosers : forall token, token ∈ closers -> token.kind = .rightBrace)
    (hlast : last.kind = .eof)
    (hsource : IsSource ((ofConstruct (.atRule name front none)).written ++ (closers ++ [last])))
    (h : readItems none state
      ((ofConstruct (.atRule name front none)).written ++ (closers ++ [last])) = .ok after) :
    exists other, other ≠ ofConstruct (.atRule name front none) ∧
      after.nodes = (state.add other).nodes := by
  have hwritten : (ofConstruct (.atRule name front none)).written ++ (closers ++ [last]) =
      ofKind (.atKeyword name) ::
        (writtenBehind [blank] front ++ ofKind .semicolon :: (closers ++ [last])) := by
    rw [written_ofConstruct, List.append_cons (writtenBehind [blank] front)]
    rfl
  rw [hwritten] at hsource h
  have heof : (ofKind .semicolon).kind ≠ .eof := TokenKind.noConfusion
  rcases exists_takeUntil_marks endsPrelude hdepth heof closers hlast with
    ⟨taken, more, rfl, htaken⟩
  have htake := hfront.uncut.takeUntil_append (ofKind .semicolon :: (taken ++ more ++ [last]))
  rw [htaken] at htake
  rcases (hsource.tail TokenKind.noConfusion).exists_isCut endsPrelude
    (fun _ => Selector.isMark_of_endsPrelude) with ⟨whole, mark, behind, htokens, hwhole, -, hcut⟩
  rw [htokens, hcut.takeUntil behind, Prod.mk.injEq] at htake
  rcases htake with ⟨rfl, hbehind⟩
  have hmore : forall token, token ∈ more -> token.kind = .rightBrace :=
    fun token htoken => hclosers token (List.mem_append_right _ htoken)
  have hmark : mark.kind = .rightBrace ∨ mark.kind = .eof := by
    cases more with
    | nil => exact Or.inr ((List.cons.inj hbehind).1 ▸ hlast)
    | cons brace more => exact Or.inl ((List.cons.inj hbehind).1 ▸ hmore brace List.mem_cons_self)
  let again := Media.prelude? none name (writtenBehind [blank] front ++ ofKind .semicolon :: taken)
  refine ⟨ofConstruct (.atRule name again none), ?_, ?_⟩
  · intro heq
    simp only [ofConstruct, Node.mk.injEq, Construct.atRule.injEq, true_and, and_true] at heq
    cases front with
    | none => exact hdepth rfl
    | some node =>
        rcases (Media.isPrelude_of_prelude? hwhole heq).closes with hcloses | hkept
        · exact hdepth (hcloses.depthBehind 0)
        · have hlength := congrArg (fun run => (significant run).length) hkept
          have hmark := significant_mark (rfl : endsDeclaration (ofKind .semicolon).kind = true) taken
          have hblank : significant (writtenBehind [blank] (some node)) = significant node.written :=
            rfl
          simp only [significant_trim, significant_append, hmark, hblank, List.length_append,
            List.length_cons] at hlength
          omega
  · rw [htokens, readItems_cons TokenKind.noConfusion, step_atRule rfl (hcut.takeUntil behind)] at h
    simp only [bareAtRule, spanning_none] at h
    have hread : readItems none (state.add (ofConstruct (.atRule name again none)))
        (mark :: behind) = .ok after := by
      rcases hmark with hmark | hmark <;> rw [hmark] at h <;> exact h
    rw [hbehind] at hread
    exact nodes_of_braces hmore hlast hread

/-! ## The whole source -/

theorem closes_readItems {after : State} (h : readItems none state tokens = .ok after)
    (hsource : IsSource tokens) (hstate : state.IsReread) (hcloses : state.Closes) :
    after.Closes ∨ exists before : State, exists node, after = before.add node ∧
      before.IsReread ∧ before.Closes ∧ LeavesOpen before.scope node := by
  fun_induction readItems none state tokens with
  | case1 state =>
      cases h
      exact Or.inl hcloses
  | case2 state token rest heof =>
      cases h
      exact Or.inl hcloses
  | case3 => cases h
  | case4 state token rest heof next more hstep ih =>
      rcases advances_step hsource heof hstep with ⟨hadvances, hmore⟩
      have hnext := hadvances.isReread hstate
      cases hadvances with
      | skip => exact ih h hmore hstate hcloses
      | @item node _ hnode hgroups =>
          rcases hgroups with hgroups | ⟨hopen, last, rest, rfl, hlast⟩
          · exact ih h hmore hnext (hcloses.add hgroups)
          · rw [readItems_eof hlast] at h
            cases h
            exact Or.inr ⟨state, node, rfl, hstate, hcloses, hopen⟩
      | opening brace _ howner =>
          refine ih h hmore hnext ⟨hcloses.children, List.forall_mem_cons.mpr ⟨?_, hcloses.blocks⟩⟩
          intro _ hnil
          cases hnil
      | close hblocks stop _ =>
          rcases state with ⟨children, blocks⟩
          cases hblocks
          exact ih h hmore hnext (hcloses.close stop)

/-- An item that leaves a group open is read again as another one. -/
theorem LeavesOpen.exists_other {node : Node} {closers : Nat} {last : Token} {after : State}
    (h : LeavesOpen state.scope node) (hclosers : state.scope = .declarations -> closers ≠ 0)
    (hlast : last.kind = .eof)
    (hsource : IsSource (node.written ++ (List.replicate closers (ofKind .rightBrace) ++ [last])))
    (hread : readItems none state
      (node.written ++ (List.replicate closers (ofKind .rightBrace) ++ [last])) = .ok after) :
    exists other, other ≠ node ∧ after.nodes = (state.add other).nodes := by
  have hbraces : forall token, token ∈ List.replicate closers (ofKind .rightBrace) ->
      token.kind = .rightBrace := by
    intro token htoken
    rw [List.eq_of_mem_replicate htoken]
    rfl
  cases h with
  | declaration hscope hnode hdepth =>
      rcases Nat.exists_eq_succ_of_ne_zero (hclosers hscope) with ⟨closers, rfl⟩
      rw [List.replicate_succ] at hbraces
      exact exists_other_declaration hscope hnode hdepth hbraces hlast hsource hread
  | atRule hfront hdepth => exact exists_other_atRule hfront hdepth hbraces hlast hsource hread

theorem closesGroups_of_ofTokens {tree : Node} (hsource : IsSource tokens)
    (h : ofTokens none tokens = .ok tree) (hseamless : Seamless tree.written) {last : Token}
    (hlast : last.kind = .eof) (hagain : ofTokens none (tree.written ++ [last]) = .ok tree) :
    tree.closesGroups = true := by
  rcases ofTokens_eq_ok_iff.mp h with ⟨state, hread, rfl⟩
  rcases closes_readItems hread hsource isReread_initial closes_initial with
    hcloses | ⟨before, node, rfl, hbefore, hcloses, hopen⟩
  · exact allCloseGroups_iff.mpr hcloses.nodes
  · exfalso
    rcases ofTokens_eq_ok_iff.mp hagain with ⟨after, hafter, hnodes⟩
    rcases exists_readItems_open hbefore hcloses with ⟨again, hscope, hadd, hreads⟩
    have hwritten : (ofConstruct (.styleSheet (before.add node).nodes)).written =
        writtenOpen before.children before.blocks ++
          (node.written ++ List.replicate before.blocks.length (ofKind .rightBrace)) := by
      rw [← writtenAll_nodes_add hbefore node]
      exact written_ofConstruct _
    rw [hwritten] at hseamless hafter
    rw [List.append_assoc, hreads, List.append_assoc] at hafter
    have hrest : IsSource (node.written ++
        (List.replicate before.blocks.length (ofKind .rightBrace) ++ [last])) :=
      ⟨_, last, (List.append_assoc _ _ _).symm, hlast, hseamless.back⟩
    have hclosers : again.scope = .declarations -> before.blocks.length ≠ 0 := by
      rw [hscope]
      rcases before with ⟨children, _ | ⟨block, outer⟩⟩
      · intro hsheet
        cases hsheet
      · exact fun _ => Nat.succ_ne_zero _
    rw [← hscope] at hopen
    rcases hopen.exists_other hclosers hlast hrest hafter with ⟨other, hne, hother⟩
    refine hne (nodes_add_injective (?_ : (before.add other).nodes = (before.add node).nodes))
    rw [← hadd, ← hother]
    simp only [ofConstruct, Node.mk.injEq, Construct.styleSheet.injEq, and_true] at hnodes
    exact hnodes.symm

/-- A stylesheet is read back from its tokens just when its items close their groups. -/
theorem ofTokens_written_iff {tree : Node} (hsource : IsSource tokens)
    (h : ofTokens none tokens = .ok tree) (hseamless : Seamless tree.written) {last : Token}
    (hlast : last.kind = .eof) :
    ofTokens none (tree.written ++ [last]) = .ok tree <-> tree.closesGroups = true :=
  ⟨closesGroups_of_ofTokens hsource h hseamless hlast,
    fun hgroups => ofTokens_written hsource h hgroups hlast⟩

end Sheet
end Stylesheet
