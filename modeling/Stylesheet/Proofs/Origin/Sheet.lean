import Stylesheet.Proofs.Origin.Selector
import Stylesheet.Proofs.Sheet.Steps
import Stylesheet.Sheet

/-!
# Every tracked node begins with its token

While a stylesheet is read, the at-rules, selectors and declarations read so far begin with
tokens read so far, in their order.  Blocks that are still open count by what they hold.
Main statement: the tree of a list of tokens is traced to the list.
-/

namespace Stylesheet

variable {sourceName : String} {source : SourceName}

/-! ## Declarations -/

namespace Declaration

theorem head?_text {token : Token} (hne : token.text ≠ "") (rest : List Token) :
    (Run.text (token :: rest)).toList.head? = token.text.toList.head? := by
  unfold Run.text
  rw [List.map_cons, String.join_cons, String.toList_append,
    List.head?_append_of_ne_nil _ (by simpa using hne)]

theorem traced_value (property : String) (run : List Token) :
    Traced sourceName [] [value source property run] := by
  unfold value
  split
  · exact Traced.raw run
  · exact Value.traced_ofRun run

theorem traced_declaration {first : Token} {rest : List Token} {important : Bool}
    {property : String} {content : Node} (hne : property ≠ "")
    (hhead : property.toList.head? = first.text.toList.head?)
    (hcontent : Traced sourceName [] [content]) :
    Traced sourceName [first] [Node.spanning (some sourceName) (first :: rest)
      (.declaration important property content)] := by
  have hfirst : (Construct.declaration important property content).WritesFirst property :=
    ⟨_, by rw [Node.constructPieces]; rfl⟩
  refine Traced.tracked ?_ rfl (hfirst.leads hne) hcontent
  refine Node.mark_spanning ?_
  rw [hfirst.head? hne, hhead]

theorem traced_parse {first : Token} {rest : List Token} {node : Node}
    (htrivia : first.isTrivia = false) (hfirstne : first.text ≠ "")
    (h : parse (some sourceName) first rest = .ok node) : Traced sourceName [first] [node] := by
  rcases Run.trim_cons_of_not_trivia htrivia rest with ⟨behind, hrun⟩
  simp only [parse, hrun] at h
  split at h
  · cases h
  · split at h
    · rename_i hproperty
      cases h
      have hfirst : exists more, (first :: behind).takeWhile (·.kind != .colon) = first :: more := by
        rw [List.takeWhile_cons] at hproperty ⊢
        split at hproperty
        · rename_i hkind
          rw [if_pos hkind]
          exact ⟨_, rfl⟩
        · cases hproperty
      rcases hfirst with ⟨more, hmore⟩
      rcases Run.trim_cons_of_not_trivia htrivia more with ⟨front, hfront⟩
      rw [hmore, hfront] at hproperty ⊢
      have hne : Run.text (first :: front) ≠ "" := by
        intro hempty
        rw [hempty] at hproperty
        cases hproperty
      exact traced_declaration hne (head?_text hfirstne front) (traced_value _ _)
    · cases h

end Declaration

namespace Sheet

/-! ## What has been read -/

/-- The nodes that belong to the front of a block. -/
def Owner.nodes : Owner -> List Node
  | .atRule _ _ prelude => prelude.toList
  | .rule _ prelude => [prelude]

/-- The marks of the front of a block. -/
def Owner.marks (sourceName : String) : Owner -> List Mark
  | .atRule keyword _ prelude =>
      ⟨some (sourceName, keyword.start), some '@'⟩ :: prelude.toList.flatMap Node.marks
  | .rule _ prelude => prelude.marks

/-- The marks of an open block. -/
def OpenBlock.marks (sourceName : String) (block : OpenBlock) : List Mark :=
  block.owner.marks sourceName ++ block.children.reverse.flatMap Node.marks

/-- The nodes that an open block holds. -/
def OpenBlock.nodes (block : OpenBlock) : List Node :=
  block.owner.nodes ++ block.children

/-- The marks of all that has been read: what is open stands behind what is closed. -/
def State.marks (sourceName : String) (state : State) : List Mark :=
  state.children.reverse.flatMap Node.marks ++
    state.blocks.reverse.flatMap (OpenBlock.marks sourceName)

/-- Every node that has been read is a tree of regular nodes. -/
structure State.Regular (state : State) : Prop where
  children : forall node, node ∈ state.children -> node.Regular
  blocks : forall block, block ∈ state.blocks -> forall node, node ∈ block.nodes -> node.Regular

theorem marks_add (state : State) (child : Node) :
    (state.add child).marks sourceName = state.marks sourceName ++ child.marks := by
  rcases state with ⟨children, blocks⟩
  cases blocks with
  | nil =>
      simp only [State.add, State.marks, List.reverse_cons, List.flatMap_append,
        List.flatMap_singleton, List.reverse_nil, List.flatMap_nil, List.append_nil]
  | cons block outer =>
      simp only [State.add, State.marks, OpenBlock.marks, List.reverse_cons,
        List.flatMap_append, List.flatMap_singleton, List.append_assoc]

theorem State.Regular.add {state : State} {child : Node} (h : state.Regular)
    (hchild : child.Regular) : (state.add child).Regular := by
  rcases state with ⟨children, blocks⟩
  cases blocks with
  | nil => exact ⟨List.forall_mem_cons.mpr ⟨hchild, h.children⟩, h.blocks⟩
  | cons block outer =>
      rcases List.forall_mem_cons.mp h.blocks with ⟨hblock, houter⟩
      refine ⟨h.children, List.forall_mem_cons.mpr ⟨?_, houter⟩⟩
      intro node hnode
      rcases List.mem_append.mp hnode with hnode | hnode
      · exact hblock node (List.mem_append_left _ hnode)
      · rcases List.mem_cons.mp hnode with rfl | hnode
        · exact hchild
        · exact hblock node (List.mem_append_right _ hnode)

theorem marks_push (state : State) (owner : Owner) (brace : Token) (scope : Scope) :
    (state.push ⟨owner, brace, scope, []⟩).marks sourceName =
      state.marks sourceName ++ owner.marks sourceName := by
  simp only [State.push, State.marks, OpenBlock.marks, List.reverse_cons, List.flatMap_append,
    List.flatMap_singleton, List.reverse_nil, List.flatMap_nil, List.append_nil,
    List.append_assoc]

theorem State.Regular.push {state : State} {owner : Owner} {brace : Token} {scope : Scope}
    (h : state.Regular) (howner : forall node, node ∈ owner.nodes -> node.Regular) :
    (state.push ⟨owner, brace, scope, []⟩).Regular := by
  refine ⟨h.children, List.forall_mem_cons.mpr ⟨?_, h.blocks⟩⟩
  intro node hnode
  rw [OpenBlock.nodes, List.append_nil] at hnode
  exact howner node hnode

/-! ## Closing blocks -/

theorem marks_block (children : List Node) (location : Option Location) :
    (Node.mk (.block children) location).marks = children.flatMap Node.marks := by
  rw [Node.marks_eq]
  rfl

theorem marks_close (stop atRuleStop : Position) (block : OpenBlock) :
    (block.close (some sourceName) stop atRuleStop).marks = block.marks sourceName := by
  rcases block with ⟨owner, brace, scope, children⟩
  cases owner with
  | atRule keyword name prelude =>
      have hfirst : forall body, (Construct.atRule name prelude (some body)).WritesFirst "@" :=
        fun body => ⟨_, by rw [Node.constructPieces]; rfl⟩
      have hmark : forall body : Node,
          (Node.mk (.atRule name prelude (some body))
            (Location.between (some sourceName) keyword.start atRuleStop)).mark =
              ⟨some (sourceName, keyword.start), some '@'⟩ := by
        intro body
        unfold Node.mark
        rw [Node.render_eq, (hfirst body).head? (by decide)]
        rfl
      unfold OpenBlock.close
      rw [Node.marks_eq, hmark]
      simp only [OpenBlock.marks, Owner.marks, Construct.children, List.flatMap_append,
        Option.toList_some, List.flatMap_singleton, marks_block]
      rfl
  | rule start prelude =>
      unfold OpenBlock.close
      rw [Node.marks_eq]
      simp only [OpenBlock.marks, Owner.marks, Construct.children, List.flatMap_cons,
        List.flatMap_nil, List.append_nil, marks_block]
      rfl

theorem regular_close (stop atRuleStop : Position) {block : OpenBlock}
    (h : forall node, node ∈ block.nodes -> node.Regular) :
    (block.close source stop atRuleStop).Regular := by
  rcases block with ⟨owner, brace, scope, children⟩
  have hbody : forall location, (Node.mk (.block children.reverse) location).Regular := by
    intro location
    refine Node.regular_iff.mpr ⟨Node.isRegular_of_untracked rfl rfl, ?_⟩
    intro child hchild
    exact h child (List.mem_append_right _ (List.mem_reverse.mp hchild))
  cases owner with
  | atRule keyword name prelude =>
      have hfirst : forall body, (Construct.atRule name prelude (some body)).WritesFirst "@" :=
        fun body => ⟨_, by rw [Node.constructPieces]; rfl⟩
      refine Node.regular_iff.mpr ⟨⟨rfl, fun _ => (hfirst _).leads (by decide)⟩, ?_⟩
      intro child hchild
      rcases List.mem_append.mp hchild with hchild | hchild
      · exact h child (List.mem_append_left _ hchild)
      · rcases List.mem_singleton.mp hchild with rfl
        exact hbody _
  | rule start prelude =>
      refine Node.regular_iff.mpr ⟨Node.isRegular_of_untracked rfl rfl, ?_⟩
      intro child hchild
      rcases List.mem_cons.mp hchild with rfl | hchild
      · exact h child List.mem_cons_self
      · rcases List.mem_singleton.mp hchild with rfl
        exact hbody _

/-- Closing what is open keeps all marks in their order. -/
theorem marks_closeAll (stop atRuleStop : Position) (children : List Node) (inner : Option Node)
    (blocks : List OpenBlock) :
    (closeAll (some sourceName) stop atRuleStop children inner blocks).reverse.flatMap Node.marks =
      children.reverse.flatMap Node.marks ++
        (blocks.reverse.flatMap (OpenBlock.marks sourceName) ++
          inner.toList.flatMap Node.marks) := by
  induction blocks generalizing inner with
  | nil =>
      rw [closeAll, List.reverse_append, List.flatMap_append]
      cases inner <;> rfl
  | cons block outer ih =>
      have hinner : inner.toList.reverse = inner.toList := by cases inner <;> rfl
      rw [closeAll, ih, Option.toList_some, List.flatMap_singleton, marks_close,
        List.reverse_cons, List.flatMap_append, List.flatMap_singleton]
      simp only [OpenBlock.marks, List.reverse_append, List.flatMap_append, List.append_assoc,
        hinner]

theorem regular_closeAll (stop atRuleStop : Position) {children : List Node}
    {inner : Option Node} {blocks : List OpenBlock}
    (hchildren : forall node, node ∈ children -> node.Regular)
    (hinner : forall node, node ∈ inner -> node.Regular)
    (hblocks : forall block, block ∈ blocks -> forall node, node ∈ block.nodes -> node.Regular) :
    forall node, node ∈ closeAll source stop atRuleStop children inner blocks ->
      node.Regular := by
  refine forall_closeAll (P := fun _ node => node.Regular)
    (I := fun blocks => forall block, block ∈ blocks ->
      forall node, node ∈ block.nodes -> node.Regular)
    (fun block outer inner hblocks hinner => ?_) hchildren hinner hblocks
  rcases List.forall_mem_cons.mp hblocks with ⟨hblock, houter⟩
  refine ⟨houter, regular_close stop atRuleStop ?_⟩
  rw [OpenBlock.nodes, List.forall_mem_append] at hblock ⊢
  exact ⟨hblock.1, List.forall_mem_append.mpr ⟨hinner, hblock.2⟩⟩

/-! ## Steps -/

/-- What a step reads is traced behind what has been read before. -/
structure Reads (sourceName : String) (read : List Token) (state after : State) : Prop where
  regular : state.Regular -> after.Regular
  marks : exists marks, after.marks sourceName = state.marks sourceName ++ marks ∧
    marks.Sublist (read.map (Token.mark sourceName))

namespace Reads

variable {read more : List Token} {state after : State}

theorem refl (read : List Token) (state : State) : Reads sourceName read state state :=
  ⟨id, [], (List.append_nil _).symm, List.nil_sublist _⟩

theorem add {child : Node} (h : Traced sourceName read [child]) (state : State) :
    Reads sourceName read state (state.add child) := by
  refine ⟨fun hregular => hregular.add (h.regular child List.mem_cons_self), child.marks,
    marks_add state child, ?_⟩
  have hmarks := h.marks
  rw [List.flatMap_singleton] at hmarks
  exact hmarks

theorem push {owner : Owner} (hnodes : forall node, node ∈ owner.nodes -> node.Regular)
    (hmarks : (owner.marks sourceName).Sublist (read.map (Token.mark sourceName)))
    (state : State) (brace : Token) (scope : Scope) :
    Reads sourceName read state (state.push ⟨owner, brace, scope, []⟩) :=
  ⟨fun hregular => hregular.push hnodes, owner.marks sourceName,
    marks_push state owner brace scope, hmarks⟩

theorem close {block : OpenBlock} {outer : List OpenBlock} (hblocks : state.blocks = block :: outer)
    (stop : Position) :
    Reads sourceName read state
      (State.add ⟨state.children, outer⟩ (block.close (some sourceName) stop stop)) := by
  rcases state with ⟨children, blocks⟩
  cases hblocks
  refine ⟨?_, [], ?_, List.nil_sublist _⟩
  · intro hregular
    rcases List.forall_mem_cons.mp hregular.blocks with ⟨hblock, houter⟩
    exact State.Regular.add ⟨hregular.children, houter⟩ (regular_close _ _ hblock)
  · rw [marks_add, marks_close]
    simp only [State.marks, List.reverse_cons, List.flatMap_append, List.flatMap_singleton,
      List.append_assoc, List.append_nil]

theorem pushRule {prelude : Node} (h : Traced sourceName read [prelude]) (state : State)
    (start : Position) (brace : Token) :
    Reads sourceName read state
      (state.push ⟨.rule start prelude, brace, .declarations, []⟩) := by
  have hmarks := h.marks
  rw [List.flatMap_singleton] at hmarks
  have hnodes : forall node, node ∈ (Owner.rule start prelude).nodes -> node.Regular := h.regular
  exact push hnodes hmarks state brace .declarations

theorem mono (h : Reads sourceName read state after) (hsublist : read.Sublist more) :
    Reads sourceName more state after := by
  rcases h.marks with ⟨marks, heq, hmarks⟩
  exact ⟨h.regular, marks, heq, hmarks.trans (hsublist.map _)⟩

theorem trans {final : State} (h : Reads sourceName read state after)
    (h' : Reads sourceName more after final) : Reads sourceName (read ++ more) state final := by
  rcases h.marks with ⟨marks, heq, hmarks⟩
  rcases h'.marks with ⟨marks', heq', hmarks'⟩
  refine ⟨h'.regular ∘ h.regular, marks ++ marks', ?_, ?_⟩
  · rw [heq', heq, List.append_assoc]
  · rw [List.map_append]
    exact hmarks.append hmarks'

end Reads

theorem traced_bareAtRule {keyword : Token} {name : String} {prelude : Option Node}
    {rest : List Token} (hspelled : keyword.IsSpelled) (hkind : keyword.kind = .atKeyword name)
    (hprelude : Traced sourceName [] prelude.toList) :
    Traced sourceName [keyword] [bareAtRule (some sourceName) name prelude (keyword :: rest)] := by
  have htrivia : keyword.isTrivia = false := by
    unfold Token.isTrivia
    rw [hkind]
    rfl
  have htext : keyword.text = "@" ++ name := hspelled.spelling _ (by rw [hkind]; rfl)
  have hfirst : (Construct.atRule name prelude none).WritesFirst "@" :=
    ⟨_, by rw [Node.constructPieces]; rfl⟩
  rcases Run.trim_cons_of_not_trivia htrivia rest with ⟨behind, hrun⟩
  unfold bareAtRule
  rw [hrun]
  refine Traced.tracked ?_ rfl (hfirst.leads (by decide)) ?_
  · refine Node.mark_spanning ?_
    rw [hfirst.head? (by decide), htext, String.toList_append]
    rfl
  · show Traced sourceName [] (prelude.toList ++ [])
    rw [List.append_nil]
    exact hprelude

theorem traced_preludeList {name : String} {run : List Token} :
    Traced sourceName [] (Media.prelude? source name run).toList := by
  cases hprelude : Media.prelude? source name run with
  | none => exact Traced.nil sourceName []
  | some prelude => exact Media.traced_prelude? hprelude

theorem Reads.pushAtRule {keyword : Token} {name : String} {run : List Token}
    (hspelled : keyword.IsSpelled) (hkind : keyword.kind = .atKeyword name) (state : State)
    (brace : Token) (scope : Scope) :
    Reads sourceName [keyword] state
      (state.push ⟨.atRule keyword name (Media.prelude? (some sourceName) name run), brace, scope,
        []⟩) := by
  have hprelude : Traced sourceName [] (Media.prelude? (some sourceName) name run).toList :=
    traced_preludeList
  have htext : keyword.text = "@" ++ name := hspelled.spelling _ (by rw [hkind]; rfl)
  have hmark : keyword.mark sourceName = ⟨some (sourceName, keyword.start), some '@'⟩ := by
    unfold Token.mark
    rw [htext, String.toList_append]
    rfl
  have hnodes : forall node, node ∈ (Owner.atRule keyword name
      (Media.prelude? (some sourceName) name run)).nodes -> node.Regular := hprelude.regular
  refine Reads.push hnodes ?_ state brace scope
  simp only [Owner.marks, List.sublist_nil.mp hprelude.marks, List.map_cons, hmark]
  exact List.Sublist.refl _

/-- A comment or a mark of a document that is kept. -/
theorem traced_leaf {token : Token} {construct : Construct Node}
    (h : leaf? token.kind = some construct) :
    Traced sourceName [] [Node.ofToken (some sourceName) token construct] := by
  unfold leaf? at h
  split at h
  · cases h
    exact Traced.leaf rfl rfl
  · cases h
    exact Traced.leaf rfl rfl
  · cases h
    exact Traced.leaf rfl rfl
  · cases h

/-- A step reads the front of its tokens and leaves the rest. -/
def StepTraced (sourceName : String) (state : State) (tokens : List Token) (after : State)
    (more : List Token) : Prop :=
  exists read, read ++ more = tokens ∧ Reads sourceName read state after

/-- An item that only its first token is told of. -/
theorem stepTraced_cons {state after : State} {token : Token}
    (h : Reads sourceName [token] state after) (run more : List Token) :
    StepTraced sourceName state (token :: (run ++ more)) after more :=
  ⟨token :: run, rfl, h.mono (List.singleton_sublist.mpr List.mem_cons_self)⟩

theorem stepTraced {state after : State} {token : Token} {rest more : List Token}
    (hspelled : forall other, other ∈ token :: rest -> other.IsSpelled)
    (heof : token.kind ≠ .eof)
    (h : step (some sourceName) state token rest = .ok (after, more)) :
    StepTraced sourceName state (token :: rest) after more := by
  have hfirst := hspelled token List.mem_cons_self
  cases steps_of_step h with
  | skip => exact stepTraced_cons (Reads.refl _ _) [] rest
  | leaf hscope hleaf =>
      have htraced := (@traced_leaf sourceName _ _ hleaf).mono (List.nil_sublist [token])
      exact stepTraced_cons (Reads.add htraced state) [] rest
  | close hkind hblocks => exact stepTraced_cons (Reads.close hblocks token.stop) [] rest
  | @atRule name run more brace hkind htake hbrace =>
      rw [(append_of_takeUntil htake).1, List.append_cons]
      exact stepTraced_cons (Reads.pushAtRule hfirst hkind state brace _) (run ++ [brace]) more
  | @bareAtRule name run more mark hkind htake hmark =>
      rw [(append_of_takeUntil htake).1, ← List.append_assoc]
      exact stepTraced_cons (Reads.add (traced_bareAtRule hfirst hkind traced_preludeList) state)
        (run ++ mark.toList) more
  | @rule run more brace hrule hcdo hcdc hscope htake hbrace =>
      rw [(append_of_takeUntil htake).1] at hspelled ⊢
      have hprelude := @Selector.traced_prelude sourceName run fun other hother =>
        hspelled other (List.mem_append_left _ hother)
      exact ⟨run ++ [brace], (List.append_cons _ _ _).symm,
        (Reads.pushRule hprelude state token.start brace).mono (List.sublist_append_left _ _)⟩
  | declaration hdeclaration hscope htake hnode =>
      rw [(append_of_takeUntil htake).1]
      have htraced := Declaration.traced_parse hdeclaration.isTrivia_eq (hfirst.text_ne_empty heof)
        hnode
      exact stepTraced_cons (Reads.add htraced state) _ more

/-! ## The whole source -/

theorem reads_readItems {state after : State} {tokens : List Token}
    (hspelled : forall token, token ∈ tokens -> token.IsSpelled)
    (h : readItems (some sourceName) state tokens = .ok after) :
    Reads sourceName tokens state after := by
  fun_induction readItems (some sourceName) state tokens with
  | case1 state =>
      cases h
      exact Reads.refl [] _
  | case2 state token rest heof =>
      cases h
      exact Reads.refl _ _
  | case3 => cases h
  | case4 state token rest heof next more hstep ih =>
      rcases stepTraced hspelled heof hstep with ⟨read, hread, htraced⟩
      rw [← hread]
      refine htraced.trans (ih ?_ h)
      intro other hother
      exact hspelled other (hread ▸ List.mem_append_right _ hother)

theorem traced_ofTokens {tokens : List Token} {tree : Node}
    (hspelled : forall token, token ∈ tokens -> token.IsSpelled)
    (h : ofTokens (some sourceName) tokens = .ok tree) : Traced sourceName tokens [tree] := by
  unfold ofTokens at h
  split at h
  · cases h
  · rename_i state hitems
    cases h
    have hreads := reads_readItems hspelled hitems
    have hregular : state.Regular := by
      refine hreads.regular ⟨?_, ?_⟩
      · intro node hnode
        cases hnode
      · intro block hblock
        cases hblock
    rcases hreads.marks with ⟨marks, hmarks, hsublist⟩
    change state.marks sourceName = marks at hmarks
    refine Traced.untracked rfl rfl ⟨?_, ?_⟩
    · intro node hnode
      refine regular_closeAll _ _ hregular.children ?_ hregular.blocks node
        (List.mem_reverse.mp hnode)
      intro inner hinner
      cases hinner
    · show (List.flatMap Node.marks (List.reverse _)).Sublist _
      rw [marks_closeAll, Option.toList_none, List.flatMap_nil, List.append_nil]
      change (state.marks sourceName).Sublist _
      rw [hmarks]
      exact hsublist

end Sheet
end Stylesheet
