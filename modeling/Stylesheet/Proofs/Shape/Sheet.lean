import Stylesheet.Generate
import Stylesheet.Proofs.Shape.Components
import Stylesheet.Proofs.Shape.Selector
import Stylesheet.Proofs.Sheet.Steps

/-!
# The shape of parsed trees

While a stylesheet is read, every block that is open holds what its owner asks for, and may
itself stand in the block around it.  Main statement: every node of a parsed tree is shaped.
-/

namespace Stylesheet

open Node

variable {source : SourceName}

/-! ## Declarations -/

namespace Declaration

theorem isProperty_iff {text : String} :
    isProperty text = true <->
      text ≠ "" ∧ forall c, c ∈ text.toList -> Character.isBlank c = false := by
  unfold isProperty
  rw [Bool.and_eq_true, Bool.not_eq_true', List.all_eq_true]
  simp only [Bool.not_eq_true', String.isEmpty_eq_false_iff, ne_eq]

theorem isInline_value (source : SourceName) (property : String) (run : List Token) :
    (value source property run).IsInline ∧
      (value source property run).type ∈ [.value, .raw] ∧
        (['-', '-'] <+: property.toList -> (value source property run).type = .raw) := by
  unfold value
  split
  · exact ⟨isInline_rawRun source run, List.mem_cons_of_mem _ List.mem_cons_self, fun _ => rfl⟩
  · rename_i hcustom
    rcases Value.isInline_ofRun source run with ⟨hinline, htype⟩
    refine ⟨hinline, htype, ?_⟩
    intro hprefix
    exact absurd (List.isPrefixOf_iff_prefix.mpr hprefix) hcustom

theorem isInline_parse {first : Token} {rest : List Token} {node : Node}
    (h : parse source first rest = .ok node) : node.IsInline ∧ node.type = .declaration := by
  simp only [parse] at h
  split at h
  · cases h
  · split at h
    · rename_i hproperty
      rcases isProperty_iff.mp hproperty with ⟨hne, hblank⟩
      cases h
      rcases isInline_value source (Run.text (Run.trim (List.takeWhile
        (fun token => token.kind != .colon) (Run.trim (first :: rest))))) (splitImportant _).1
        with ⟨hinline, htype, hcustom⟩
      refine ⟨isInline_of_children ⟨hne, hblank, htype, hcustom⟩ NodeType.noConfusion ?_, rfl⟩
      exact List.forall_mem_singleton.mpr hinline
    · cases h

end Declaration

namespace Sheet

/-! ## What has been read -/

/-- A node that may stand within a scope. -/
structure IsItem (scope : Scope) (node : Node) : Prop where
  shaped : node.Shaped
  type : node.type ∈ scope.itemTypes

/-- The type of the construct that a block belongs to. -/
def Owner.type : Owner -> NodeType
  | .atRule .. => .atRule
  | .rule .. => .rule

/-- The front of a block, and what stands in the block because of it. -/
def Owner.IsShaped (scope : Scope) : Owner -> Prop
  | .atRule _ name prelude =>
      (forall node, node ∈ prelude -> node.IsInline ∧ node.type = .atRulePrelude) ∧
        scope = scopeOf name
  | .rule _ prelude =>
      (prelude.IsInline ∧ prelude.type ∈ [.selectorList, .raw]) ∧ scope = .declarations

structure OpenBlock.IsShaped (block : OpenBlock) : Prop where
  owner : block.owner.IsShaped block.scope
  children : forall child, child ∈ block.children -> IsItem block.scope child

/-- Open blocks, the innermost first, each of which may stand in the one around it. -/
inductive Nested : List OpenBlock -> Prop
  | nil : Nested []
  | cons {block : OpenBlock} {outer : List OpenBlock} (hblock : block.IsShaped)
      (hstands : block.owner.type ∈ (State.scope ⟨[], outer⟩).itemTypes) (houter : Nested outer) :
      Nested (block :: outer)

structure State.IsShaped (state : State) : Prop where
  children : forall child, child ∈ state.children -> IsItem .sheet child
  blocks : Nested state.blocks

theorem isShaped_initial : State.initial.IsShaped where
  children := by
    intro child hnil
    cases hnil
  blocks := Nested.nil

theorem State.IsShaped.add {state : State} {child : Node} (hchild : IsItem state.scope child)
    (h : state.IsShaped) : (state.add child).IsShaped := by
  rcases state with ⟨children, blocks⟩
  rcases h with ⟨hchildren, hblocks⟩
  cases hblocks with
  | nil => exact ⟨List.forall_mem_cons.mpr ⟨hchild, hchildren⟩, Nested.nil⟩
  | cons hblock hstands houter =>
      exact ⟨hchildren, Nested.cons
        ⟨hblock.owner, List.forall_mem_cons.mpr ⟨hchild, hblock.children⟩⟩ hstands houter⟩

theorem State.IsShaped.push {state : State} {owner : Owner} {scope : Scope} (brace : Token)
    (howner : owner.IsShaped scope) (hstands : owner.type ∈ state.scope.itemTypes)
    (h : state.IsShaped) : (state.push ⟨owner, brace, scope, []⟩).IsShaped := by
  refine ⟨h.children, Nested.cons ⟨howner, ?_⟩ hstands h.blocks⟩
  intro child hnil
  cases hnil

/-! ## Closing blocks -/

theorem shaped_block {nodes : List Node} {scope : Scope} (location : Option Location)
    (h : forall child, child ∈ nodes -> IsItem scope child) :
    (Node.mk (.block nodes) location).Shaped ∧
      (Node.mk (.block nodes) location).IsBlockOf scope := by
  refine ⟨shaped_iff.mpr ⟨⟨trivial, ?_⟩, fun child hchild => (h child hchild).shaped⟩,
    nodes, rfl, fun child hchild => (h child hchild).type⟩
  intro child hchild htype
  have hmem := (h child hchild).type
  rw [htype] at hmem
  exfalso
  revert hmem
  cases scope <;> decide

theorem shaped_close (stop atRuleStop : Position) {block : OpenBlock} (h : block.IsShaped) :
    (block.close source stop atRuleStop).Shaped ∧
      (block.close source stop atRuleStop).type = block.owner.type := by
  rcases block with ⟨owner, brace, scope, children⟩
  have hchildren : forall child, child ∈ children.reverse -> IsItem scope child :=
    fun child hchild => h.children child (List.mem_reverse.mp hchild)
  have hbody := shaped_block (Location.between source brace.start stop) hchildren
  cases owner with
  | atRule keyword name prelude =>
      rcases h.owner with ⟨hprelude, hscope⟩
      refine ⟨shaped_iff.mpr ⟨⟨⟨?_, ?_⟩, fun _ _ _ => Or.inr rfl⟩, ?_⟩, rfl⟩
      · intro node hnode
        exact (hprelude node hnode).right
      · rintro _ ⟨⟩
        rw [← hscope]
        exact hbody.right
      · intro child hchild
        rcases List.mem_append.mp hchild with hchild | hchild
        · exact (hprelude child (Option.mem_toList.mp hchild)).left.shaped
        · rw [List.mem_singleton.mp hchild]
          exact hbody.left
  | rule start prelude =>
      rcases h.owner with ⟨⟨hinline, htype⟩, hscope⟩
      refine ⟨shaped_iff.mpr ⟨⟨⟨htype, ?_⟩, fun _ _ _ => Or.inl rfl⟩, ?_⟩, rfl⟩
      · rw [← hscope]
        exact hbody.right
      · exact List.forall_mem_cons.mpr ⟨hinline.shaped, List.forall_mem_singleton.mpr hbody.left⟩

theorem isItem_close (stop atRuleStop : Position) {block : OpenBlock} {outer : List OpenBlock}
    (hblock : block.IsShaped)
    (hstands : block.owner.type ∈ (State.scope ⟨[], outer⟩).itemTypes) :
    IsItem (State.scope ⟨[], outer⟩) (block.close source stop atRuleStop) := by
  rcases @shaped_close source stop atRuleStop _ hblock with ⟨hshaped, htype⟩
  refine ⟨hshaped, ?_⟩
  rw [htype]
  exact hstands

theorem isItem_closeAll (stop atRuleStop : Position) {children : List Node} {inner : Option Node}
    {blocks : List OpenBlock} (hchildren : forall child, child ∈ children -> IsItem .sheet child)
    (hinner : forall node, node ∈ inner -> IsItem (State.scope ⟨[], blocks⟩) node)
    (hblocks : Nested blocks) :
    forall child, child ∈ closeAll source stop atRuleStop children inner blocks ->
      IsItem .sheet child := by
  refine forall_closeAll (fun block outer inner hnested hinner => ?_) hchildren hinner hblocks
  cases hnested with
  | cons hblock hstands houter =>
      exact ⟨houter, isItem_close stop atRuleStop
        ⟨hblock.owner, List.forall_mem_append.mpr ⟨hinner, hblock.children⟩⟩ hstands⟩

/-! ## Steps -/

theorem atRule_mem_itemTypes (scope : Scope) : NodeType.atRule ∈ scope.itemTypes := by
  cases scope <;> decide

theorem isItem_of_isInline {scope : Scope} {node : Node} (h : node.IsInline)
    (htype : node.type ∈ scope.itemTypes) : IsItem scope node :=
  ⟨h.shaped, htype⟩

theorem isItem_bareAtRule {name : String} {prelude : Option Node} {scope : Scope}
    (run : List Token)
    (hprelude : forall node, node ∈ prelude -> node.IsInline ∧ node.type = .atRulePrelude) :
    IsItem scope (bareAtRule source name prelude run) := by
  refine ⟨shaped_of_children ⟨fun node hnode => (hprelude node hnode).right, ?_⟩ ?_,
    atRule_mem_itemTypes scope⟩
  · rintro _ ⟨⟩
  · intro child hchild
    rcases List.mem_append.mp hchild with hchild | hchild
    · exact (hprelude child (Option.mem_toList.mp hchild)).left
    · cases hchild

theorem isItem_leaf {token : Token} {construct : Construct Node}
    (h : leaf? token.kind = some construct) :
    IsItem .sheet (Node.ofToken source token construct) := by
  unfold leaf? at h
  split at h
  · cases h
    have htype : NodeType.comment ∈ Scope.itemTypes .sheet := by decide
    exact isItem_of_isInline (isInline_leaf trivial NodeType.noConfusion rfl) htype
  · cases h
    have htype : NodeType.cdo ∈ Scope.itemTypes .sheet := by decide
    exact isItem_of_isInline (isInline_leaf trivial NodeType.noConfusion rfl) htype
  · cases h
    have htype : NodeType.cdc ∈ Scope.itemTypes .sheet := by decide
    exact isItem_of_isInline (isInline_leaf trivial NodeType.noConfusion rfl) htype
  · cases h

theorem rule_mem_itemTypes {scope : Scope} (h : scope ≠ .declarations) :
    NodeType.rule ∈ scope.itemTypes := by
  cases scope with
  | sheet => decide
  | rules => decide
  | declarations => exact absurd rfl h

theorem isShaped_step {state after : State} {token : Token} {rest more : List Token}
    (h : step source state token rest = .ok (after, more)) (hstate : state.IsShaped) :
    after.IsShaped := by
  cases steps_of_step h with
  | skip => exact hstate
  | leaf hscope hleaf =>
      have hitem := @isItem_leaf source _ _ hleaf
      rw [← hscope] at hitem
      exact hstate.add hitem
  | close hkind hblocks =>
      rcases state with ⟨children, blocks⟩
      cases hblocks
      rcases hstate with ⟨hchildren, hnested⟩
      cases hnested with
      | cons hblock hstands houter =>
          exact State.IsShaped.add (isItem_close _ _ hblock hstands) ⟨hchildren, houter⟩
  | atRule =>
      exact hstate.push _ ⟨fun _ hnode => Media.isInline_prelude? hnode, rfl⟩
        (atRule_mem_itemTypes _)
  | bareAtRule =>
      exact hstate.add (isItem_bareAtRule _ fun _ hnode => Media.isInline_prelude? hnode)
  | rule hfirst hcdo hcdc hscope =>
      exact hstate.push _ ⟨Selector.isInline_prelude _, rfl⟩ (rule_mem_itemTypes hscope)
  | declaration hfirst hscope htake hnode =>
      rcases Declaration.isInline_parse hnode with ⟨hinline, htype⟩
      refine hstate.add (isItem_of_isInline hinline ?_)
      rw [htype, hscope]
      decide

/-! ## The whole source -/

theorem isShaped_readItems {state after : State} {tokens : List Token}
    (h : readItems source state tokens = .ok after) (hstate : state.IsShaped) :
    after.IsShaped := by
  fun_induction readItems source state tokens with
  | case1 state =>
      cases h
      exact hstate
  | case2 state token rest heof =>
      cases h
      exact hstate
  | case3 => cases h
  | case4 state token rest heof next more hstep ih => exact ih h (isShaped_step hstep hstate)

theorem shaped_ofTokens {tokens : List Token} {tree : Node}
    (h : ofTokens source tokens = .ok tree) : tree.Shaped ∧ tree.type = .styleSheet := by
  unfold ofTokens at h
  split at h
  · cases h
  · rename_i state hitems
    cases h
    have hstate := isShaped_readItems hitems isShaped_initial
    have hinner : forall node, node ∈ none -> IsItem (State.scope ⟨[], state.blocks⟩) node := by
      rintro _ ⟨⟩
    have hitem := @isItem_closeAll source (stopOf tokens)
      (stopOf (Run.trim (tokens.filter (·.kind != .eof)))) _ none _ hstate.children hinner
      hstate.blocks
    refine ⟨shaped_iff.mpr ⟨⟨?_, ?_⟩, ?_⟩, rfl⟩
    · intro child hchild
      exact (hitem child (List.mem_reverse.mp hchild)).type
    · intro child hchild htype
      have hmem := (hitem child (List.mem_reverse.mp hchild)).type
      rw [htype] at hmem
      exact absurd hmem (by decide)
    · intro child hchild
      exact (hitem child (List.mem_reverse.mp hchild)).shaped

end Sheet

/-- Every node of a parsed tree looks as its construct asks for. -/
theorem shaped_of_parse {text : String} {options : ParseOptions} {tree : Node}
    (h : parse text options = .ok tree) : tree.type = .styleSheet ∧ tree.Shaped := by
  unfold parse at h
  split at h
  · cases h
  · exact (Sheet.shaped_ofTokens h).symm

/-- A custom property in a block of declarations, and a nested selector in a block of rules. -/
theorem shaped_nested_rules :
    exists tree, parse "@page\x7b--a: 1 , 2\x7d @media x\x7b> a b:not( c )\x7bd: e f\x7d"
        ⟨none, false⟩ = .ok tree ∧
      generate tree = "@page\x7b--a:1 , 2\x7d@media x\x7b>a b:not(c)\x7bd:e f\x7d\x7d" ∧
        tree.type = .styleSheet ∧ tree.Shaped := by
  have hcss : (parse "@page\x7b--a: 1 , 2\x7d @media x\x7b> a b:not( c )\x7bd: e f\x7d"
      ⟨none, false⟩).toOption.map generate =
        some "@page\x7b--a:1 , 2\x7d@media x\x7b>a b:not(c)\x7bd:e f\x7d\x7d" := by
    decide +kernel
  cases hparse : parse "@page\x7b--a: 1 , 2\x7d @media x\x7b> a b:not( c )\x7bd: e f\x7d"
      ⟨none, false⟩ with
  | error error =>
      rw [hparse] at hcss
      cases hcss
  | ok tree =>
      rw [hparse] at hcss
      exact ⟨tree, rfl, Option.some.inj hcss, shaped_of_parse hparse⟩

end Stylesheet
