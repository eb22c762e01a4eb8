import Stylesheet.Generate
import Stylesheet.Proofs.Range.Tree

/-!
# What is kept as it is written

Main statement: raw text, the properties of declarations and the leaves of a parsed tree are what
the source holds in their ranges, character for character.
-/

namespace Stylesheet

open Run Sheet

namespace Node

/-- What a source holds in the range of a node, and nothing if the node is not located. -/
def textIn (source : List Char) (node : Node) : List Char :=
  match node.location with
  | some location => slice source location.start.offset location.stop.offset
  | none => []

/-- A node that is written as its source holds it in the range of the node. -/
def IsWrittenAsIn (source : List Char) (node : Node) : Prop :=
  node.location.isSome = true ∧ (generate node).toList = node.textIn source

/-- A node keeps what its source holds in its range, as far as its type and its parent say so. -/
structure IsVerbatimIn (source : List Char) (node parent : Node) : Prop where
  raw : forall content, node.construct = .raw content -> parent.type ≠ .url ->
    content.toList = node.textIn source
  property : forall important property value,
    node.construct = .declaration important property value ->
      exists location, node.location = some location ∧
        property.toList <+: source.drop location.start.offset
  leaf : node.type.isVerbatim = true -> node.IsWrittenAsIn source
  combinator : forall name, node.construct = .combinator name -> name ≠ " " ->
    node.IsWrittenAsIn source
  identifier : forall name, node.construct = .identifier name ->
    (forall filter, parent.construct ≠ .nth node filter) -> node.IsWrittenAsIn source

end Node

/-! ## Ranges of runs -/

/-- What a source holds in the range of a run of its tokens is the text of the run. -/
theorem Run.slice_positionBehind {source : List Char} {before run behind : List Token}
    (h : chars (before ++ run ++ behind) = source) :
    slice source (positionBehind before).offset (positionBehind (before ++ run)).offset =
      chars run := by
  rw [offset_positionBehind, offset_positionBehind, ← h, chars_append, chars_append,
    List.length_append]
  exact slice_append _ _ _

section Over

variable {name : String} {source : List Char} {tokens run : List Token} {node : Node}
  {parent : NodeType}

theorem Node.textIn_eq (hscan : Token.Scan .start source tokens) (hrun : run <:+: tokens)
    (hlocation : node.location = Location.ofRun (some name) run) :
    node.textIn source = chars run := by
  unfold textIn
  rcases hrun with ⟨before, behind, rfl⟩
  by_cases hne : run = []
  · rw [hlocation, Location.ofRun_eq_none_iff.mpr hne, hne]
    rfl
  · rw [hlocation, Location.ofRun_eq hscan.adjoins hne]
    exact slice_positionBehind hscan.chars_eq

theorem Construct.Fits.render_eq {construct : Construct Node} (h : construct.Fits parent run)
    (hverbatim : construct.type.isVerbatim = true) :
    Node.renderConstruct construct = Run.text run := by
  cases construct with
  | raw | identifier | combinator | value | nth | declaration | styleSheet | rule | block =>
      cases hverbatim
  | atRule => cases hverbatim
  | _ => exact h hverbatim

theorem Node.Over.isWrittenAsIn (h : node.Over (some name) parent run)
    (hscan : Token.Scan .start source tokens) (hrun : run <:+: tokens) (hne : run ≠ [])
    (hrender : Node.renderConstruct node.construct = Run.text run) :
    node.IsWrittenAsIn source := by
  constructor
  · rw [h.location, Option.isSome_iff_ne_none]
    intro hnone
    exact hne (Location.ofRun_eq_none_iff.mp hnone)
  · rw [textIn_eq hscan hrun h.location]
    show (Node.render node).toList = (Run.text run).toList
    rcases node with ⟨construct, location⟩
    rw [Node.render]
    exact congrArg String.toList hrender

theorem Node.Over.ne_nil (h : node.Over (some name) parent run)
    (hraw : node.construct ≠ .raw "") (hvalue : node.construct ≠ .value []) : run ≠ [] := by
  intro hnil
  rcases h.empty hnil with hconstruct | hconstruct
  · exact hraw hconstruct
  · exact hvalue hconstruct

/-- The text of a source begins with the property of a declaration at the start of its range. -/
theorem Node.Over.property_isPrefix (h : node.Over (some name) parent run)
    (hscan : Token.Scan .start source tokens) (hrun : run <:+: tokens) {important : Bool}
    {property : String} {value : Node}
    (hconstruct : node.construct = .declaration important property value) :
    exists location, node.location = some location ∧
      property.toList <+: source.drop location.start.offset := by
  have hne : run ≠ [] := h.ne_nil (by simp [hconstruct]) (by simp [hconstruct])
  have hfits := h.fits
  rw [hconstruct] at hfits
  rcases hfits with ⟨front, back, hfront, hproperty⟩
  rcases hrun with ⟨before, behind, rfl⟩
  refine ⟨_, h.location.trans (Location.ofRun_eq hscan.adjoins hne), ?_⟩
  rw [offset_positionBehind, ← hscan.chars_eq, chars_append, chars_append, List.append_assoc,
    List.drop_left, hfront, chars_append, List.append_assoc, hproperty]
  exact List.prefix_append _ _

/-- A position has no other identifier than its formula if it counts among a list of selectors. -/
theorem Node.type_ne_nth {node parent : Node} {word : String}
    (hconstruct : node.construct = .identifier word)
    (hchild : node ∈ parent.construct.children)
    (hformula : forall filter, parent.construct ≠ .nth node filter)
    (hfilter : forall formula filter, parent.construct = .nth formula (some filter) ->
      filter.type = .selectorList) : parent.type ≠ .nth := by
  intro htype
  rcases parent with ⟨construct, location⟩
  cases construct with
  | nth formula filter =>
      rcases List.mem_cons.mp hchild with rfl | hchild
      · exact hformula filter rfl
      · have hlist := hfilter formula node (by rw [Option.mem_toList.mp hchild])
        rw [Node.type, hconstruct] at hlist
        cases hlist
  | _ => cases htype

/-- A child over a run keeps the text of the run. -/
theorem Node.Over.isVerbatimIn {parent : Node} (h : node.Over (some name) parent.type run)
    (hscan : Token.Scan .start source tokens) (hrun : run <:+: tokens)
    (hchild : node ∈ parent.construct.children)
    (hfilter : forall formula filter, parent.construct = .nth formula (some filter) ->
      filter.type = .selectorList) : node.IsVerbatimIn source parent := by
  have hfits := h.fits
  constructor
  · intro content hconstruct hurl
    rw [hconstruct] at hfits
    rw [textIn_eq hscan hrun h.location, hfits hurl]
    rfl
  · intro important property value hconstruct
    exact h.property_isPrefix hscan hrun hconstruct
  · intro hverbatim
    have hne : run ≠ [] := by
      apply h.ne_nil <;> intro hconstruct <;> rw [Node.type, hconstruct] at hverbatim <;>
        cases hverbatim
    exact h.isWrittenAsIn hscan hrun hne (hfits.render_eq hverbatim)
  · intro combinator hconstruct hwritten
    have hne : run ≠ [] := h.ne_nil (by simp [hconstruct]) (by simp [hconstruct])
    rw [hconstruct] at hfits
    apply h.isWrittenAsIn hscan hrun hne
    rw [hconstruct, Node.renderConstruct]
    exact hfits hwritten
  · intro word hconstruct hformula
    have hne : run ≠ [] := h.ne_nil (by simp [hconstruct]) (by simp [hconstruct])
    have hnth := type_ne_nth hconstruct hchild hformula hfilter
    rw [hconstruct] at hfits
    apply h.isWrittenAsIn hscan hrun hne
    rw [hconstruct, Node.renderConstruct]
    exact hfits hnth

end Over

section Under

variable {source : SourceName} {name : String} {text : List Char} {tokens : List Token}
  {node parent tree : Node}

/-- What a block belongs to, the block and the stylesheet keep nothing by themselves. -/
theorem Node.isVerbatimIn_of_type (htype : node.type ∈ [.atRule, .rule, .block]) :
    node.IsVerbatimIn text parent := by
  rcases node with ⟨construct, location⟩
  cases construct with
  | atRule | rule | block =>
      constructor
      · intro content hconstruct
        cases hconstruct
      · intro important property value hconstruct
        cases hconstruct
      · intro hverbatim
        cases hverbatim
      · intro name hconstruct
        cases hconstruct
      · intro name hconstruct
        cases hconstruct
  | _ => exact absurd htype (by simp [Node.type, Construct.type])

/-- A position counts among a list of selectors, if it counts among given elements. -/
theorem ReadUnder.filter_type (h : ReadUnder source tokens parent node) :
    forall formula filter, node.construct = .nth formula (some filter) ->
      filter.type = .selectorList := by
  intro formula filter hnth
  have htype : node.type = .nth := congrArg Construct.type hnth
  cases h with
  | plain hrun hover =>
      have hfits := hover.fits
      rw [hnth] at hfits
      exact hfits filter rfl
  | owner h =>
      have hmem := h.types.left
      rw [htype] at hmem
      exact absurd hmem (by decide)
  | block h =>
      have hblock := h.types.right
      rw [htype] at hblock
      cases hblock

theorem Node.IsTreeOf.isVerbatimIn (h : tree.IsTreeOf (some name) tokens)
    (hscan : Token.Scan .start text tokens) (hparent : parent ∈ tree.preorder)
    (hnode : node ∈ parent.construct.children) : node.IsVerbatimIn text parent := by
  have hfilter : forall formula filter, parent.construct = .nth formula (some filter) ->
      filter.type = .selectorList := by
    rcases exists_parent_of_mem_preorder hparent with rfl | ⟨outer, houter, hchild⟩
    · rcases h.root with ⟨nodes, rfl, _⟩
      intro formula filter hnth
      cases hnth
    · exact (h.allRead outer houter parent hchild).filter_type
  cases h.allRead parent hparent node hnode with
  | plain hrun hover => exact hover.isVerbatimIn hscan hrun hnode hfilter
  | owner hblock =>
      apply isVerbatimIn_of_type
      exact List.mem_append_left [.block] hblock.types.left
  | block hblock =>
      apply isVerbatimIn_of_type
      rw [hblock.types.right]
      decide

end Under

/-- Every node of a parsed tree but the stylesheet keeps what its source holds in its range. -/
theorem isVerbatimIn_of_parse {text : String} {options : ParseOptions} {tree : Node}
    (hpositions : options.positions = true) (h : parse text options = .ok tree) :
    tree.type = .styleSheet ∧ forall parent, parent ∈ tree.preorder ->
      forall node, node ∈ parent.construct.children ->
        node.IsVerbatimIn text.toList parent := by
  rcases isTreeOf_of_parse h with ⟨tokens, htokens, htree⟩
  rw [ParseOptions.sourceName_of_positions hpositions] at htree
  constructor
  · rcases htree.root with ⟨nodes, rfl, _⟩
    rfl
  · intro parent hparent node hnode
    exact htree.isVerbatimIn (Token.scan_of_scanFrom htokens) hparent hnode

/-- Odd preludes, a custom property, and a position among elements. -/
theorem isVerbatimIn_odd_preludes :
    exists tree,
      parse "@x a,!;a:nth-child(odd of b)>c\x7b--d: ,;f:url('g')\x7d,\x7b\x7d" ⟨none, true⟩ =
        .ok tree ∧
      forall parent, parent ∈ tree.preorder -> forall node, node ∈ parent.construct.children ->
        node.IsVerbatimIn
          "@x a,!;a:nth-child(odd of b)>c\x7b--d: ,;f:url('g')\x7d,\x7b\x7d".toList
          parent := by
  have hok : (parse "@x a,!;a:nth-child(odd of b)>c\x7b--d: ,;f:url('g')\x7d,\x7b\x7d"
      ⟨none, true⟩).toOption.isSome = true := by
    decide +kernel
  cases hparse : parse "@x a,!;a:nth-child(odd of b)>c\x7b--d: ,;f:url('g')\x7d,\x7b\x7d"
      ⟨none, true⟩ with
  | error error =>
      rw [hparse] at hok
      cases hok
  | ok tree => exact ⟨tree, rfl, (isVerbatimIn_of_parse rfl hparse).right⟩

end Stylesheet
