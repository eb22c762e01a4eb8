import Stylesheet.Node.Render
import Stylesheet.Proofs.Range.Row

/-!
# Placed nodes

Nodes are placed in a run when each of them was read from a run of its own within it, one
behind another, and its children are placed in that run.  A node without children is written as
its run is, but for an address, the position in a pseudo-class and the descendant combinator.
-/

namespace Stylesheet

/-- The types of nodes that are always written as they were read. -/
def NodeType.isVerbatim : NodeType -> Bool
  | typeSelector | idSelector | classSelector => true
  | number | percentage | dimension | hash | string | unicodeRange | operator => true
  | comment | cdo | cdc => true
  | _ => false

/-- The types of nodes that are written as they were read somewhere. -/
def NodeType.isLeaf : NodeType -> Bool
  | raw | identifier | combinator => true
  | type => type.isVerbatim

/-- The types of nodes of which only the children are looked at. -/
def NodeType.isFree : NodeType -> Bool
  | atRulePrelude | selectorList | selector | attributeSelector => true
  | pseudoClass | pseudoElement | anPlusB | url => true
  | function | parentheses | brackets | whiteSpace => true
  | mediaQueryList | mediaQuery | mediaFeature | ratio => true
  | _ => false

/--
What a construct has in common with the run that it was read from, as a child of a node of some
type.  What holds a block is read item by item, and is none of these.
-/
def Construct.Fits (parent : NodeType) (run : List Token) : Construct Node -> Prop
  | .raw content => parent ≠ .url -> content = Run.text run
  | .identifier name => parent ≠ .nth -> name = Run.text run
  | .combinator name => name ≠ " " -> name = Run.text run
  | .value nodes => nodes = [] -> run = []
  | .nth _ filter => forall list, list ∈ filter -> list.type = .selectorList
  | .declaration _ property _ => exists front back, run = front ++ back ∧ property = Run.text front
  | .styleSheet _ | .rule _ _ | .block _ | .atRule _ _ (some _) => False
  | construct =>
      construct.type.isVerbatim = true -> Node.renderConstruct construct = Run.text run

namespace Run

/-- Every token of a run is spelled. -/
def IsSpelled (run : List Token) : Prop :=
  forall token, token ∈ run -> token.IsSpelled

theorem IsSpelled.sublist {run more : List Token} (h : IsSpelled more)
    (hrun : run.Sublist more) : IsSpelled run := by
  intro token htoken
  exact h token (hrun.subset htoken)

/-- A token of a kind with one spelling is read back as it is written. -/
theorem text_singleton {token : Token} {spelling : String} (h : token.IsSpelled)
    (hkind : token.kind.spelling? = some spelling) : text [token] = spelling := by
  rw [text_cons, text_nil, String.append_empty]
  exact h.spelling spelling hkind

end Run

namespace Construct

variable {parent : NodeType} {run : List Token} {construct : Construct Node}

/-- A leaf that is written as its run is. -/
theorem fits_of_isLeaf (hleaf : construct.type.isLeaf = true)
    (h : Node.renderConstruct construct = Run.text run) : construct.Fits parent run := by
  cases construct with
  | raw | identifier | combinator =>
      rw [Node.renderConstruct] at h
      exact fun _ => h
  | styleSheet | block | value | rule | declaration | nth | atRule => cases hleaf
  | _ => exact fun _ => h

theorem children_of_isLeaf (hleaf : construct.type.isLeaf = true) : construct.children = [] := by
  cases construct <;>
    first
      | rfl
      | cases hleaf

theorem fits_of_isFree (h : construct.type.isFree = true) : construct.Fits parent run := by
  cases construct <;>
    first
      | exact absurd h Bool.false_ne_true
      | exact fun hverbatim => absurd hverbatim Bool.false_ne_true

/-- A value asks the most of its children. -/
theorem Fits.under (h : construct.Fits .value run) (parent : NodeType) :
    construct.Fits parent run := by
  cases construct with
  | raw => exact fun _ => h NodeType.noConfusion
  | identifier => exact fun _ => h NodeType.noConfusion
  | atRule name prelude body =>
      cases body with
      | none => exact h
      | some body => exact h
  | _ => exact h

end Construct

/-- Nodes that were read from runs within a run, as children of a node of some type. -/
inductive Placed (source : SourceName) : NodeType -> List Token -> List Node -> Prop
  | nil (parent : NodeType) (run : List Token) : Placed source parent run []
  | cons {parent : NodeType} {front inner rest : List Token} {node : Node} {nodes : List Node}
      (hlocation : node.location = Location.ofRun source inner)
      (hfits : node.construct.Fits parent inner)
      (hempty : inner = [] -> node.construct = .raw "" ∨ node.construct = .value [])
      (hchildren : Placed source node.type inner node.construct.children)
      (hrest : Placed source parent rest nodes) :
      Placed source parent (front ++ inner ++ rest) (node :: nodes)

namespace Placed

variable {source : SourceName} {parent : NodeType} {run more : List Token}
  {nodes others : List Node}

theorem widen (h : Placed source parent run nodes) (before behind : List Token) :
    Placed source parent (before ++ run ++ behind) nodes := by
  induction h generalizing before with
  | nil => exact nil _ _
  | @cons parent front inner rest node nodes hlocation hfits hempty hchildren hrest _ ih =>
      have hplaced : Placed source parent ((before ++ front) ++ inner ++ ([] ++ rest ++ behind))
          (node :: nodes) :=
        cons hlocation hfits hempty hchildren (ih [])
      simpa only [List.append_assoc, List.nil_append] using hplaced

/-- What is placed in a run is placed in every run around it. -/
theorem mono (h : Placed source parent run nodes) (hrun : run <:+: more) :
    Placed source parent more nodes := by
  rcases hrun with ⟨before, behind, rfl⟩
  exact h.widen before behind

theorem skip (h : Placed source parent run nodes) (front : List Token) :
    Placed source parent (front ++ run) nodes :=
  h.mono (List.infix_append' front run [] |>.trans (by simp))

theorem append (h : Placed source parent run nodes) (h' : Placed source parent more others) :
    Placed source parent (run ++ more) (nodes ++ others) := by
  induction h with
  | nil parent run => exact h'.skip run
  | cons hlocation hfits hempty hchildren hrest _ ih =>
      rw [List.append_assoc]
      exact cons hlocation hfits hempty hchildren (ih h')

theorem sublist (h : Placed source parent run nodes) (hnodes : others.Sublist nodes) :
    Placed source parent run others := by
  induction h generalizing others with
  | nil =>
      rw [List.sublist_nil.mp hnodes]
      exact nil _ _
  | cons hlocation hfits hempty hchildren hrest _ ih =>
      cases hnodes with
      | cons _ hnodes => exact (ih hnodes).skip _
      | cons_cons _ hnodes => exact cons hlocation hfits hempty hchildren (ih hnodes)

theorem under (h : Placed source .value run nodes) (parent : NodeType) :
    Placed source parent run nodes := by
  generalize hvalue : NodeType.value = strict at h
  induction h with
  | nil => exact nil _ _
  | cons hlocation hfits hempty hchildren hrest _ ih =>
      subst hvalue
      exact cons hlocation (hfits.under parent) hempty hchildren (ih rfl)

theorem row (h : Placed source parent run nodes) : Row source (fun _ => true) run nodes := by
  induction h with
  | nil => exact Row.nil fun _ _ => rfl
  | cons hlocation hfits hempty hchildren hrest _ ih =>
      exact Row.cons (fun _ _ => rfl) hlocation ih

end Placed

/-! ## One node -/

/-- A node that was read from a whole run. -/
structure Node.Over (source : SourceName) (parent : NodeType) (run : List Token)
    (node : Node) : Prop where
  location : node.location = Location.ofRun source run
  fits : node.construct.Fits parent run
  empty : run = [] -> node.construct = .raw "" ∨ node.construct = .value []
  children : Placed source node.type run node.construct.children

namespace Node.Over

variable {source : SourceName} {parent : NodeType} {run rest : List Token}
  {construct : Construct Node} {token : Token} {node : Node} {nodes : List Node}

theorem placed (h : node.Over source parent run) : Placed source parent run [node] := by
  have hplaced : Placed source parent ([] ++ run ++ []) [node] :=
    Placed.cons h.location h.fits h.empty h.children (Placed.nil parent [])
  rw [List.append_nil] at hplaced
  exact hplaced

theorem cons (h : node.Over source parent run) (hrest : Placed source parent rest nodes) :
    Placed source parent (run ++ rest) (node :: nodes) :=
  h.placed.append hrest

theorem under (h : node.Over source .value run) (parent : NodeType) :
    node.Over source parent run :=
  ⟨h.location, h.fits.under parent, h.empty, h.children⟩

/-- A node over tokens with its children placed among them. -/
theorem spanning (hne : run ≠ []) (hfits : construct.Fits parent run)
    (hchildren : Placed source construct.type run construct.children) :
    (Node.spanning source run construct).Over source parent run where
  location := rfl
  fits := hfits
  empty := fun hempty => absurd hempty hne
  children := hchildren

theorem leaf (hne : run ≠ []) (hfits : construct.Fits parent run)
    (hchildren : construct.children = []) :
    (Node.spanning source run construct).Over source parent run := by
  apply spanning hne hfits
  rw [hchildren]
  exact Placed.nil _ _

/-- A node of which only the children are looked at. -/
theorem free (hne : run ≠ []) (htype : construct.type.isFree = true)
    (hchildren : Placed source construct.type run construct.children) :
    (Node.spanning source run construct).Over source parent run :=
  spanning hne (Construct.fits_of_isFree htype) hchildren

/-- A node over one token. -/
theorem ofToken (hfits : construct.Fits parent [token]) (hchildren : construct.children = []) :
    (Node.ofToken source token construct).Over source parent [token] :=
  leaf (List.cons_ne_nil _ _) hfits hchildren

/-- A leaf over one token that is written as the token is. -/
theorem ofSpelling {spelling : String} (hspelled : token.IsSpelled)
    (hkind : token.kind.spelling? = some spelling) (hleaf : construct.type.isLeaf = true)
    (hrender : Node.renderConstruct construct = spelling) :
    (Node.ofToken source token construct).Over source parent [token] := by
  apply ofToken _ (Construct.children_of_isLeaf hleaf)
  apply Construct.fits_of_isLeaf hleaf
  rw [hrender, Run.text_singleton hspelled hkind]

theorem raw (source : SourceName) (parent : NodeType) (run : List Token) :
    (rawRun source run).Over source parent run where
  location := rfl
  fits := fun _ => rfl
  empty := by
    rintro rfl
    exact Or.inl rfl
  children := Placed.nil _ _

end Node.Over

end Stylesheet
