import Stylesheet.Generate
import Stylesheet.Proofs.Mapping.Recording
import Stylesheet.Proofs.Moved.Sheet
import Stylesheet.Proofs.Node.Pieces

/-!
# Locations never change the result

Main statement: whichever options a source is read with, it fails in the same place for the same
reason or gives the same tree up to locations, and that tree is written as the same text with or
without a source map.
-/

namespace Stylesheet

namespace Node

/-! ## Trees without locations -/

mutual

/-- A node and everything below it without locations. -/
def erase : Node -> Node
  | ⟨construct, _⟩ => ⟨eraseConstruct construct, none⟩

/-- A construct whose children have lost their locations. -/
def eraseConstruct : Construct Node -> Construct Node
  | .styleSheet nodes => .styleSheet (eraseAll nodes)
  | .atRule name front body => .atRule name (eraseOption front) (eraseOption body)
  | .atRulePrelude nodes => .atRulePrelude (eraseAll nodes)
  | .rule front body => .rule front.erase body.erase
  | .block nodes => .block (eraseAll nodes)
  | .declarationList nodes => .declarationList (eraseAll nodes)
  | .declaration important property content => .declaration important property content.erase
  | .selectorList nodes => .selectorList (eraseAll nodes)
  | .selector nodes => .selector (eraseAll nodes)
  | .attributeSelector name matcher content flags =>
      .attributeSelector name matcher (eraseOption content) flags
  | .pseudoClass name nodes => .pseudoClass name (eraseArguments nodes)
  | .pseudoElement name nodes => .pseudoElement name (eraseArguments nodes)
  | .nth formula filter => .nth formula.erase (eraseOption filter)
  | .value nodes => .value (eraseAll nodes)
  | .url address => .url address.erase
  | .function name nodes => .function name (eraseAll nodes)
  | .parentheses nodes => .parentheses (eraseAll nodes)
  | .brackets nodes => .brackets (eraseAll nodes)
  | .mediaQueryList nodes => .mediaQueryList (eraseAll nodes)
  | .mediaQuery nodes => .mediaQuery (eraseAll nodes)
  | .mediaFeature name content => .mediaFeature name (eraseOption content)
  | leaf => leaf

/-- Nodes without locations. -/
def eraseAll : List Node -> List Node
  | [] => []
  | node :: rest => node.erase :: eraseAll rest

/-- A node, if there is one, without locations. -/
def eraseOption : Option Node -> Option Node
  | none => none
  | some node => some node.erase

/-- Arguments, if there are any, without locations. -/
def eraseArguments : Option (List Node) -> Option (List Node)
  | none => none
  | some nodes => some (eraseAll nodes)

end

theorem eraseAll_eq_map (nodes : List Node) : eraseAll nodes = nodes.map erase := by
  induction nodes with
  | nil => rw [eraseAll, List.map_nil]
  | cons node rest ih => rw [eraseAll, List.map_cons, ih]

theorem eraseOption_eq_map (node : Option Node) : eraseOption node = node.map erase := by
  cases node with
  | none => rw [eraseOption, Option.map_none]
  | some node => rw [eraseOption, Option.map_some]

theorem eraseArguments_eq_map (nodes : Option (List Node)) :
    eraseArguments nodes = nodes.map (List.map erase) := by
  cases nodes with
  | none => rw [eraseArguments, Option.map_none]
  | some nodes => rw [eraseArguments, Option.map_some, eraseAll_eq_map]

theorem eraseConstruct_eq_map (construct : Construct Node) :
    eraseConstruct construct = construct.map erase := by
  cases construct <;>
    simp only [eraseConstruct, Construct.map, eraseAll_eq_map, eraseOption_eq_map,
      eraseArguments_eq_map]

theorem construct_erase (node : Node) : node.erase.construct = node.construct.map erase := by
  cases node
  rw [erase, eraseConstruct_eq_map]

theorem location_erase (node : Node) : node.erase.location = none := by
  cases node
  rw [erase]

/-- Whatever name locations are recorded under, erasing takes them away. -/
theorem forgets_erase (source : SourceName) : Forgets source erase where
  construct := construct_erase
  location := fun _ _ _ => location_erase _
  unlocated := fun _ => location_erase _

theorem isDeclaration_erase (node : Node) : node.erase.isDeclaration = node.isDeclaration := by
  unfold isDeclaration
  rw [(forgets_erase none).type]

/-! ## The text of a tree without locations -/

section Render

variable {nodes : List Node}

theorem renderAll_map_erase (h : forall child, child ∈ nodes -> child.erase.render = child.render) :
    renderAll (nodes.map erase) = renderAll nodes := by
  induction nodes with
  | nil => rfl
  | cons node rest ih =>
      rw [List.map_cons, renderAll, renderAll, h node List.mem_cons_self,
        ih fun child hchild => h child (List.mem_cons_of_mem _ hchild)]

theorem renderCommas_map_erase
    (h : forall child, child ∈ nodes -> child.erase.render = child.render) :
    renderCommas (nodes.map erase) = renderCommas nodes := by
  induction nodes with
  | nil => rfl
  | cons node rest ih =>
      have hnode := h node List.mem_cons_self
      have hrest := ih fun child hchild => h child (List.mem_cons_of_mem _ hchild)
      cases rest with
      | nil => rw [List.map_cons, List.map_nil, renderCommas, renderCommas, hnode]
      | cons next more =>
          rw [List.map_cons] at hrest
          rw [List.map_cons, List.map_cons, renderCommas_cons_cons, renderCommas_cons_cons, hnode,
            hrest]

theorem renderBlock_map_erase
    (h : forall child, child ∈ nodes -> child.erase.render = child.render) :
    renderBlock (nodes.map erase) = renderBlock nodes := by
  induction nodes with
  | nil => rfl
  | cons node rest ih =>
      have hnode := h node List.mem_cons_self
      have hrest := ih fun child hchild => h child (List.mem_cons_of_mem _ hchild)
      cases rest with
      | nil => rw [List.map_cons, List.map_nil, renderBlock, renderBlock, hnode]
      | cons next more =>
          rw [List.map_cons] at hrest
          rw [List.map_cons, List.map_cons, renderBlock_cons_cons, renderBlock_cons_cons, hnode,
            hrest, isDeclaration_erase]

theorem renderBehind_map_erase (mark : String) {node : Option Node}
    (h : forall child, child ∈ node -> child.erase.render = child.render) :
    renderBehind mark (node.map erase) = renderBehind mark node := by
  cases node with
  | none => rfl
  | some node => rw [Option.map_some, renderBehind, renderBehind, h node rfl]

theorem renderOr_map_erase (other : String) {node : Option Node}
    (h : forall child, child ∈ node -> child.erase.render = child.render) :
    renderOr other (node.map erase) = renderOr other node := by
  cases node with
  | none => rfl
  | some node => rw [Option.map_some, renderOr, renderOr, h node rfl]

theorem renderConstruct_map_erase (construct : Construct Node)
    (h : forall child, child ∈ construct.children -> child.erase.render = child.render) :
    renderConstruct (construct.map erase) = renderConstruct construct := by
  cases construct
  case atRule name front body =>
    have hfront := renderBehind_map_erase " " fun child hchild =>
      h child (List.mem_append_left _ (Option.mem_toList.mpr hchild))
    have hbody := renderOr_map_erase ";" fun child hchild =>
      h child (List.mem_append_right _ (Option.mem_toList.mpr hchild))
    rw [Construct.map, renderConstruct, renderConstruct, hfront, hbody]
  case rule front body =>
    have hfront := h front List.mem_cons_self
    have hbody := h body (List.mem_cons_of_mem _ List.mem_cons_self)
    rw [Construct.map, renderConstruct, renderConstruct, hfront, hbody]
  case attributeSelector name matcher content flags =>
    cases matcher with
    | none => rw [Construct.map, renderConstruct, renderConstruct]
    | some matcher =>
        have hcontent := renderOr_map_erase "" fun child hchild =>
          h child (Option.mem_toList.mpr hchild)
        rw [Construct.map, renderConstruct, renderConstruct, hcontent]
  case pseudoClass name arguments | pseudoElement name arguments =>
    cases arguments with
    | none => rfl
    | some nodes =>
        have hnodes : renderAll (nodes.map erase) = renderAll nodes := renderAll_map_erase h
        simp only [Construct.map, Option.map_some, renderConstruct, hnodes]
  case nth formula filter =>
    have hformula := h formula List.mem_cons_self
    have hfilter := renderBehind_map_erase " of " fun child hchild =>
      h child (List.mem_cons_of_mem _ (Option.mem_toList.mpr hchild))
    rw [Construct.map, renderConstruct, renderConstruct, hformula, hfilter]
  case mediaFeature name content =>
    have hcontent := renderBehind_map_erase ":" fun child hchild =>
      h child (Option.mem_toList.mpr hchild)
    rw [Construct.map, renderConstruct, renderConstruct, hcontent]
  case declaration important property content =>
    rw [Construct.map, renderConstruct, renderConstruct, h content List.mem_cons_self]
  case url address => rw [Construct.map, renderConstruct, renderConstruct, h address List.mem_cons_self]
  case block nodes | declarationList nodes =>
    have hnodes : renderBlock (nodes.map erase) = renderBlock nodes := renderBlock_map_erase h
    rw [Construct.map, renderConstruct, renderConstruct, hnodes]
  case selectorList nodes | mediaQueryList nodes =>
    have hnodes : renderCommas (nodes.map erase) = renderCommas nodes := renderCommas_map_erase h
    rw [Construct.map, renderConstruct, renderConstruct, hnodes]
  case styleSheet nodes | atRulePrelude nodes | selector nodes | value nodes | function _ nodes |
      parentheses nodes | brackets nodes | mediaQuery nodes =>
    have hnodes : renderAll (nodes.map erase) = renderAll nodes := renderAll_map_erase h
    rw [Construct.map, renderConstruct, renderConstruct, hnodes]
  all_goals rfl

end Render

theorem render_erase (node : Node) : node.erase.render = node.render := by
  induction node using Node.induction with
  | step node ih =>
      rw [render_eq, render_eq, construct_erase, renderConstruct_map_erase node.construct ih]

end Node

/-- A recorder follows the writer and never changes what is written. -/
theorem css_generateWith (options : GenerateOptions) (tree : Node) :
    (generateWith options tree).css = generate tree := by
  simp only [generateWith, generate, Writer.node, Writer.foldl_piece, Writer.start, Output.empty,
    Node.chars_pieces, String.ofList_toList, String.empty_append]

/-! ## Readings of one source -/

theorem Token.moved_id (token : Token) : token.moved id = token :=
  rfl

theorem Run.moved_id (run : List Token) : Run.moved id run = run :=
  List.map_id run

theorem ParseError.moved_id (error : ParseError) : error.moved id = error :=
  rfl

/-- A reading without its locations is the reading that records none. -/
theorem map_erase_parse (text : String) (options : ParseOptions) :
    (parse text options).map Node.erase = parse text {} := by
  unfold parse
  cases tokenize text with
  | error error => rfl
  | ok tokens =>
      have hmoved := Sheet.ofTokens_moved id (Node.forgets_erase options.sourceName) tokens
      rw [Run.moved_id] at hmoved
      change (Sheet.ofTokens options.sourceName tokens).map Node.erase = Sheet.ofTokens none tokens
      rw [hmoved]
      cases Sheet.ofTokens options.sourceName tokens <;> rfl

/--
Two readings that differ in locations alone: they fail in the same place for the same reason, or
their trees are equal without locations and are written as the same text under any options.
-/
def AgreeUpToLocations : Except ParseError Node -> Except ParseError Node -> Prop
  | .error error, .error error' => error = error'
  | .ok tree, .ok tree' => tree.erase = tree'.erase ∧
      forall options options', (generateWith options tree).css = (generateWith options' tree').css
  | _, _ => False

theorem agreeUpToLocations_of_map_erase_eq {left right : Except ParseError Node}
    (h : left.map Node.erase = right.map Node.erase) : AgreeUpToLocations left right := by
  cases left with
  | error error =>
      cases right with
      | error error' => exact Except.error.inj h
      | ok tree' => cases h
  | ok tree =>
      cases right with
      | error error' => cases h
      | ok tree' =>
          have herase : tree.erase = tree'.erase := Except.ok.inj h
          constructor
          · exact herase
          · intro options options'
            rw [css_generateWith, css_generateWith, generate, generate, ← Node.render_erase tree,
              ← Node.render_erase tree', herase]

theorem parse_agreeUpToLocations (text : String) (options options' : ParseOptions) :
    AgreeUpToLocations (parse text options) (parse text options') := by
  apply agreeUpToLocations_of_map_erase_eq
  rw [map_erase_parse, map_erase_parse]

end Stylesheet
