import Stylesheet.Proofs.Moved.Sheet
import Stylesheet.Proofs.Reread.Items

/-!
# Stylesheets that are read back

What has been read is read back item by item.  Main statement: a stylesheet whose items close their
groups is read back from its tokens.
-/

namespace Stylesheet
namespace Sheet

open Node Token Run

variable {state : State} {scope : Scope} {rest tokens : List Token}

/-! ## What a step reads -/

/-- The end of the source comes next. -/
def AtEnd (tokens : List Token) : Prop :=
  exists last rest, tokens = last :: rest ∧ last.kind = .eof

/-- An item that leaves a group open. -/
inductive LeavesOpen (scope : Scope) : Node -> Prop
  | declaration {run : List Token} {node : Node} (hscope : scope = .declarations)
      (h : Declaration.IsReread run node) (hdepth : depthBehind 0 node.written ≠ 0) :
      LeavesOpen scope node
  | atRule {name : String} {front : Option Node} (h : IsFront name front)
      (hdepth : depthBehind 0 (writtenBehind [blank] front) ≠ 0) :
      LeavesOpen scope (ofConstruct (.atRule name front none))

/-- What a step reads, and what is left behind it. -/
inductive Advances (state : State) : State -> List Token -> Prop
  | skip (rest : List Token) : Advances state state rest
  | item {node : Node} {rest : List Token} (hnode : IsReread state.scope node)
      (hgroups : node.closesGroups = true ∨ LeavesOpen state.scope node ∧ AtEnd rest) :
      Advances state (state.add node) rest
  | opening {owner : Owner} {scope : Scope} (brace : Token) (rest : List Token)
      (howner : owner.IsReread state.scope scope) :
      Advances state (state.push ⟨owner, brace, scope, []⟩) rest
  | close {block : OpenBlock} {outer : List OpenBlock} (hblocks : state.blocks = block :: outer)
      (stop : Position) (rest : List Token) :
      Advances state (State.add ⟨state.children, outer⟩ (block.close none stop stop)) rest

theorem advances_bareAtRule {name : String} {front : Option Node} (hfront : IsFront name front)
    (hend : depthBehind 0 (writtenBehind [blank] front) = 0 ∨ AtEnd rest) :
    Advances state (state.add (ofConstruct (.atRule name front none))) rest := by
  refine .item (isReread_bareAtRule hfront) ?_
  by_cases hclosed : depthBehind 0 (writtenBehind [blank] front) = 0
  · exact Or.inl (closesGroups_bareAtRule.mpr hclosed)
  · exact Or.inr ⟨.atRule hfront hclosed, hend.resolve_left hclosed⟩

/-- A declaration has a token, and what comes behind it is the rest of the source. -/
theorem advances_declaration {first : Token} {run more : List Token} {node : Node}
    (hsource : IsSource (first :: rest)) (hfirst : BeginsItem first) (heof : first.kind ≠ .eof)
    (hscope : state.scope = .declarations)
    (htake : takeUntil endsDeclaration (depthAfter 0 first) rest = (run, more))
    (hnode : Declaration.parse none first run = .ok node) :
    Advances state (state.add node) more ∧ IsSource more := by
  rcases hsource.exists_isCut endsDeclaration fun _ => isMark_of_endsDeclaration with
    ⟨item, mark, behind, hitem, hrun, hbehind, hcut⟩
  cases item with
  | nil =>
      rcases List.cons.inj hitem with ⟨rfl, -⟩
      rcases hcut.ends with hend | hend
      · exact absurd hend heof
      · rw [hfirst.endsDeclaration_eq] at hend
        cases hend.2
  | cons _ item =>
      rcases List.cons.inj hitem with ⟨rfl, hrest⟩
      change rest = item ++ mark :: behind at hrest
      rw [hrest, hcut.takeUntil_tail behind] at htake
      cases htake
      have hreread := Declaration.isReread_parse hrun hfirst (uncut_iff.mpr hcut.passes) hnode
      have hitem := isReread_declaration hreread
      rw [← hscope] at hitem
      refine ⟨.item hitem ?_, hbehind⟩
      by_cases hclosed : depthBehind 0 node.written = 0
      · exact Or.inl ((closesGroups_declaration hreread.declaration).mpr hclosed)
      · refine Or.inr ⟨.declaration hscope hreread hclosed, mark, behind, rfl, ?_⟩
        refine hcut.ends.resolve_right fun hends => hclosed ?_
        rw [← hreread.tallies.depthBehind_eq]
        exact hends.1

/-- A step reads nothing, an item, the front of a block or the end of one. -/
theorem advances_step {after : State} {first : Token} {more : List Token}
    (hsource : IsSource (first :: rest)) (heof : first.kind ≠ .eof)
    (h : step none state first rest = .ok (after, more)) :
    Advances state after more ∧ IsSource more := by
  have htail := hsource.tail heof
  cases steps_of_step h with
  | skip => exact ⟨.skip rest, htail⟩
  | leaf hscope hleaf =>
      have hitem := isReread_leaf hleaf
      rw [← hscope] at hitem
      exact ⟨.item hitem (Or.inl (closesGroups_leaf hleaf)), htail⟩
  | close hkind hblocks => exact ⟨.close hblocks first.stop rest, htail⟩
  | @atRule name run more brace hkind htake hbrace =>
      rcases htail.exists_isCut endsPrelude fun _ => Selector.isMark_of_endsPrelude with
        ⟨run, mark, behind, rfl, hrun, hbehind, hcut⟩
      rw [hcut.takeUntil behind] at htake
      cases htake
      rcases isFront_prelude? name hrun (uncut_iff.mpr hcut.passes) with ⟨hfront, hdepth⟩
      have heof : brace.kind ≠ .eof := by
        rw [hbrace]
        exact TokenKind.noConfusion
      exact ⟨.opening brace more (.atRule hfront (hdepth (hcut.ends.resolve_left heof).1)),
        hbehind.tail heof⟩
  | @bareAtRule name run more semicolon hkind htake hsemicolon =>
      rcases htail.exists_isCut endsPrelude fun _ => Selector.isMark_of_endsPrelude with
        ⟨run, mark, behind, rfl, hrun, hbehind, hcut⟩
      rw [hcut.takeUntil behind] at htake
      rcases isFront_prelude? name hrun (uncut_iff.mpr hcut.passes) with ⟨hfront, hdepth⟩
      rw [bareAtRule, spanning_none]
      cases semicolon with
      | none =>
          cases htake
          refine ⟨advances_bareAtRule hfront ?_, hbehind⟩
          exact hcut.ends.symm.imp (fun hends => hdepth hends.1) fun heof => ⟨mark, _, rfl, heof⟩
      | some semicolon =>
          cases htake
          have heof : mark.kind ≠ .eof := by
            rw [hsemicolon mark rfl]
            exact TokenKind.noConfusion
          exact ⟨advances_bareAtRule hfront (Or.inl (hdepth (hcut.ends.resolve_left heof).1)),
            hbehind.tail heof⟩
  | @rule run more brace hfirst hcdo hcdc hscope htake hbrace =>
      rcases hsource.exists_isCut endsPrelude fun _ => Selector.isMark_of_endsPrelude with
        ⟨run, mark, behind, hitem, hrun, hbehind, hcut⟩
      rw [hitem, hcut.takeUntil behind] at htake
      cases htake
      have hfront := isRuleFront_prelude hrun ⟨hfirst, heof, hcdo, hcdc⟩ hitem hcut hbrace
      exact ⟨.opening brace more (.rule hscope hfront),
        hbehind.tail (by rw [hbrace]; exact TokenKind.noConfusion)⟩
  | declaration hfirst hscope htake hnode =>
      exact advances_declaration hsource hfirst heof hscope htake hnode

/-! ## What has been read -/

/-- Open blocks, the innermost first, each of which is read back in the one around it. -/
def AreReread : List OpenBlock -> Prop
  | [] => True
  | block :: outer => block.IsReread (State.scope ⟨[], outer⟩) ∧ AreReread outer

structure State.IsReread (state : State) : Prop where
  children : forall child, child ∈ state.children -> Sheet.IsReread .sheet child
  blocks : AreReread state.blocks

theorem isReread_initial : State.initial.IsReread :=
  ⟨fun _ hnil => (nomatch hnil), trivial⟩

theorem State.IsReread.add {child : Node} (hchild : Sheet.IsReread state.scope child)
    (h : state.IsReread) : (state.add child).IsReread := by
  rcases state with ⟨children, _ | ⟨block, outer⟩⟩
  · exact ⟨List.forall_mem_cons.mpr ⟨hchild, h.children⟩, trivial⟩
  · rcases h with ⟨hchildren, hblock, houter⟩
    exact ⟨hchildren, ⟨hblock.owner, List.forall_mem_cons.mpr ⟨hchild, hblock.children⟩⟩, houter⟩

theorem State.IsReread.push {owner : Owner} (brace : Token)
    (howner : owner.IsReread state.scope scope) (h : state.IsReread) :
    (state.push ⟨owner, brace, scope, []⟩).IsReread :=
  ⟨h.children, ⟨howner, fun _ hnil => (nomatch hnil)⟩, h.blocks⟩

theorem isReread_closeAll (stop atRuleStop : Position) {children : List Node} {inner : Option Node}
    {blocks : List OpenBlock} (hchildren : forall child, child ∈ children -> IsReread .sheet child)
    (hinner : forall node, node ∈ inner -> IsReread (State.scope ⟨[], blocks⟩) node)
    (hblocks : AreReread blocks) :
    forall child, child ∈ closeAll none stop atRuleStop children inner blocks ->
      IsReread .sheet child := by
  refine forall_closeAll (fun block outer inner hreread hinner => ?_) hchildren hinner hblocks
  rcases hreread with ⟨hblock, houter⟩
  exact ⟨houter, isReread_close stop atRuleStop
    ⟨hblock.owner, List.forall_mem_append.mpr ⟨hinner, hblock.children⟩⟩⟩

theorem Advances.isReread {after : State} (h : Advances state after rest)
    (hstate : state.IsReread) : after.IsReread := by
  cases h with
  | skip => exact hstate
  | item hnode _ => exact hstate.add hnode
  | opening brace _ howner => exact hstate.push brace howner
  | close hblocks stop _ =>
      rcases state with ⟨children, blocks⟩
      cases hblocks
      rcases hstate with ⟨hchildren, hblock, houter⟩
      exact State.IsReread.add (isReread_close stop stop hblock) ⟨hchildren, houter⟩

/-! ## The whole source -/

theorem isReread_readItems {after : State} (h : readItems none state tokens = .ok after)
    (hsource : IsSource tokens) (hstate : state.IsReread) : after.IsReread := by
  fun_induction readItems none state tokens with
  | case1 state =>
      cases h
      exact hstate
  | case2 state token rest heof =>
      cases h
      exact hstate
  | case3 => cases h
  | case4 state token rest heof next more hstep ih =>
      rcases advances_step hsource heof hstep with ⟨hadvances, hmore⟩
      exact ih h hmore (hadvances.isReread hstate)

/-- Items outside of every block are read back up to the end of the source. -/
theorem ofTokens_items {nodes : List Node} (h : forall node, node ∈ nodes -> IsReread .sheet node)
    (hgroups : forall node, node ∈ nodes -> node.closesGroups = true) {last : Token}
    (hlast : last.kind = .eof) :
    ofTokens none (writtenAll nodes ++ [last]) = .ok (ofConstruct (.styleSheet nodes)) := by
  have hrow : writtenRow nodes = writtenAll nodes :=
    writtenRow_eq fun node hnode => (h node hnode).not_isDeclaration Scope.noConfusion
  have hread : readItems none .initial (writtenAll nodes ++ [last]) = .ok ⟨nodes.reverse, []⟩ := by
    rw [← hrow, readItems_row h hgroups rfl, readItems_eof hlast, State.initial, foldl_add_sheet,
      List.append_nil]
  rw [ofTokens, hread]
  simp only [closeAll, Option.toList, List.nil_append, List.reverse_reverse, spanning_none]

/-- A stylesheet is read back from its tokens when its items close their groups. -/
theorem ofTokens_written {tree : Node} (hsource : IsSource tokens)
    (h : ofTokens none tokens = .ok tree) (hgroups : tree.closesGroups = true) {last : Token}
    (hlast : last.kind = .eof) : ofTokens none (tree.written ++ [last]) = .ok tree := by
  unfold ofTokens at h
  split at h
  · cases h
  rename_i state hitems
  cases h
  have hstate := isReread_readItems hitems hsource isReread_initial
  have hinner : forall node, node ∈ none -> IsReread (State.scope ⟨[], state.blocks⟩) node := by
    rintro _ ⟨⟩
  have hclosed := isReread_closeAll (stopOf tokens)
    (stopOf (Run.trim (tokens.filter (·.kind != .eof)))) hstate.children hinner hstate.blocks
  rw [spanning_none] at hgroups ⊢
  exact ofTokens_items (fun node hnode => hclosed node (List.mem_reverse.mp hnode))
    (allCloseGroups_iff.mp hgroups) hlast

end Sheet
end Stylesheet
