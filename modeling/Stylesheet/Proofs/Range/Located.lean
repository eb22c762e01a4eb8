import Stylesheet.Proofs.Moved.Readers
import Stylesheet.Proofs.Range.Tree
import Stylesheet.Proofs.Token.Tiling

/-!
# Locations are accurate

Main statement: with positions on, a located node of the tree of a source names the source and
reaches from the start of a token to the end of a token, both counted right, and only nodes over
no tokens are not located.  With positions off no node is located.
-/

namespace Stylesheet

open Run Sheet

/-- A range between two ends of tokens of a source, both of which are counted right. -/
structure Location.IsAccurate (name : String) (source : List Char) (tokens : List Token)
    (location : Location) : Prop where
  sourceName : location.sourceName = name
  ordered : location.start.offset <= location.stop.offset
  within : location.stop.offset <= source.length
  start_mem : exists token, token ∈ tokens ∧ token.start = location.start
  stop_mem : exists token, token ∈ tokens ∧ token.stop = location.stop
  start_isIn : location.start.IsIn source
  stop_isIn : location.stop.IsIn source

/-- A node is located accurately, or is a text or a value over no tokens. -/
structure Node.IsLocatedIn (name : String) (source : List Char) (tokens : List Token)
    (node : Node) : Prop where
  accurate : forall location, location ∈ node.location -> location.IsAccurate name source tokens
  unlocated : node.location = none -> node.construct = .raw "" ∨ node.construct = .value []
  empty : node.construct = .value [] -> node.location = none

/-! ## Runs of nodes -/

/-- A node that was read from a run of its own among some tokens. -/
structure Node.IsOverRun (source : SourceName) (tokens run : List Token) (node : Node) : Prop where
  run_isInfix : run <:+: tokens
  location : node.location = Location.ofRun source run
  empty : run = [] -> node.construct = .raw "" ∨ node.construct = .value []
  nonempty : node.construct = .value [] -> run = []

section Runs

variable {source : SourceName} {tokens run : List Token} {node parent tree : Node}

theorem Node.isOverRun_of_ne_nil (hrun : run <:+: tokens) (hne : run ≠ [])
    (hlocation : node.location = Location.ofRun source run) (htype : node.type ≠ .value) :
    node.IsOverRun source tokens run where
  run_isInfix := hrun
  location := hlocation
  empty := fun hnil => absurd hnil hne
  nonempty := by
    intro hvalue
    exact absurd (congrArg Construct.type hvalue) htype

theorem Node.Over.isOverRun {type : NodeType} (h : node.Over source type run)
    (hrun : run <:+: tokens) : node.IsOverRun source tokens run where
  run_isInfix := hrun
  location := h.location
  empty := h.empty
  nonempty := by
    intro hvalue
    have hfits := h.fits
    rw [hvalue] at hfits
    exact hfits rfl

theorem Sheet.Owner.node_type_ne (owner : Owner) (covered : List Token) (body : Node) :
    (owner.node source covered body).type ≠ .value := by
  intro htype
  exact absurd (htype ▸ owner.node_type_mem source covered body) (by decide)

theorem Sheet.Leads.covers_ne_nil {owner : Owner} {scope : Scope} {front inner : List Token}
    {brace last : Token} (h : Leads source owner scope front brace) :
    owner.covers (front ++ brace :: inner) last ≠ [] := by
  cases owner with
  | atRule keyword name prelude => exact (h.begins inner).trim_ne_nil
  | rule start prelude => exact List.append_ne_nil_of_right_ne_nil _ (List.cons_ne_nil _ _)

theorem Sheet.Owner.covers_isInfix (owner : Owner) (run : List Token) (last : Token) :
    owner.covers run last <:+: run ++ [last] := by
  cases owner with
  | atRule => exact (isInfix_trim run).trans (List.prefix_append run [last]).isInfix
  | rule => exact List.infix_rfl

/-- What a block belongs to and the block were read from runs. -/
theorem HoldsBlock.isOverRun {body : Node} (h : HoldsBlock source tokens node body) :
    (exists run, node.IsOverRun source tokens run) ∧
      exists run, body.IsOverRun source tokens run := by
  cases h with
  | @closed front inner brace closer owner scope children htokens hleads hcloser hinner =>
      have hblock : brace :: inner ++ [closer] <:+: tokens :=
        List.IsInfix.trans ⟨front, [], by simp⟩ htokens
      exact ⟨⟨_, Node.isOverRun_of_ne_nil htokens (by simp) (owner.node_location _ _ _)
          (owner.node_type_ne _ _)⟩,
        _, Node.isOverRun_of_ne_nil hblock (by simp) rfl NodeType.noConfusion⟩
  | @unclosed front inner brace last owner scope children htokens hleads hlast hinner =>
      have hblock : brace :: inner ++ [last] <:+: tokens :=
        List.IsInfix.trans ⟨front, [], by simp⟩ htokens
      exact ⟨⟨_, Node.isOverRun_of_ne_nil ((owner.covers_isInfix _ last).trans htokens)
          hleads.covers_ne_nil (owner.node_location _ _ _) (owner.node_type_ne _ _)⟩,
        _, Node.isOverRun_of_ne_nil hblock (by simp) rfl NodeType.noConfusion⟩

theorem ReadUnder.isOverRun (h : ReadUnder source tokens parent node) :
    exists run, node.IsOverRun source tokens run := by
  cases h with
  | plain hrun hover => exact ⟨_, hover.isOverRun hrun⟩
  | owner h => exact h.isOverRun.left
  | block h => exact h.isOverRun.right

/-- Every node of the tree of a source was read from a run of its tokens. -/
theorem Node.IsTreeOf.isOverRun (h : tree.IsTreeOf source tokens) (hne : tokens ≠ [])
    (hnode : node ∈ tree.preorder) : exists run, node.IsOverRun source tokens run := by
  rcases exists_parent_of_mem_preorder hnode with rfl | ⟨parent, hparent, hchild⟩
  · rcases h.root with ⟨nodes, rfl, _⟩
    exact ⟨tokens, Node.isOverRun_of_ne_nil List.infix_rfl hne rfl NodeType.noConfusion⟩
  · exact (h.allRead parent hparent node hchild).isOverRun

end Runs

/-! ## Accuracy -/

/-- The location of a run of the tokens of a source is accurate. -/
theorem Location.isAccurate_of_ofRun {name : String} {text : List Char} {tokens run : List Token}
    {location : Location} (hscan : Token.Scan .start text tokens) (hrun : run <:+: tokens)
    (h : ofRun (some name) run = some location) : location.IsAccurate name text tokens := by
  have hne := ne_nil_of_ofRun_eq_some h
  rcases hrun with ⟨before, behind, rfl⟩
  have hlocation := @ofRun_eq name _ _ _ hscan.adjoins hne
  rw [h] at hlocation
  cases hlocation
  have htext := hscan.chars_eq
  rw [chars_append, chars_append] at htext
  have hstart : (positionBehind before).IsIn text := by
    rw [← htext, List.append_assoc]
    exact Position.isIn_after_start _ _
  have hstop : (positionBehind (before ++ run)).IsIn text := by
    rw [← htext, ← chars_append]
    exact Position.isIn_after_start _ _
  rcases List.exists_cons_of_ne_nil hne with ⟨first, rest, hfirst⟩
  rcases List.eq_nil_or_concat run with hnil | ⟨front, last, hlast⟩
  · exact absurd hnil hne
  rw [List.concat_eq_append] at hlast
  constructor
  · rfl
  · simp only [offset_positionBehind, chars_append, List.length_append]
    omega
  · exact hstop.left
  · refine ⟨first, by simp [hfirst], ?_⟩
    have hadjoins := hscan.adjoins
    rw [hfirst, List.append_assoc, List.cons_append] at hadjoins
    exact hadjoins.token.left
  · refine ⟨last, by simp [hlast], ?_⟩
    have hadjoins := hscan.adjoins
    rw [hlast, ← List.append_assoc, List.append_assoc _ [last], List.singleton_append] at hadjoins
    rw [hadjoins.token.right, hlast, List.append_assoc]
  · exact hstart
  · exact hstop

theorem Node.IsOverRun.isLocatedIn {name : String} {text : List Char} {tokens run : List Token}
    {node : Node} (hscan : Token.Scan .start text tokens)
    (h : node.IsOverRun (some name) tokens run) : node.IsLocatedIn name text tokens where
  accurate := by
    intro location hlocation
    exact Location.isAccurate_of_ofRun hscan h.run_isInfix (h.location.symm.trans hlocation)
  unlocated := by
    intro hnone
    exact h.empty (Location.ofRun_eq_none_iff.mp (h.location.symm.trans hnone))
  empty := by
    intro hvalue
    rw [h.location, h.nonempty hvalue]
    rfl

namespace Token.Scan

variable {position : Position} {text : List Char} {tokens : List Token} {token : Token}

theorem ne_nil (h : Scan position text tokens) : tokens ≠ [] := by
  cases h <;> exact List.cons_ne_nil _ _

/-- The end of a source covers nothing. -/
theorem chars_of_eof (h : Scan position text tokens) (hmem : token ∈ tokens)
    (heof : token.kind = .eof) : chars [token] = [] := by
  rw [chars_singleton, (h.isSpelled hmem).spelling "" (by rw [heof]; rfl)]
  rfl

end Token.Scan

/-- Every node of a parsed tree is located accurately if positions are on, and else not at all. -/
theorem isLocatedIn_of_parse {text : String} {options : ParseOptions} {tree : Node}
    (h : parse text options = .ok tree) :
    exists tokens, tokenize text = .ok tokens ∧ forall node, node ∈ tree.preorder ->
      if options.positions then
        node.IsLocatedIn (options.filename.getD "<unknown>") text.toList tokens
      else
        node.location = none := by
  rcases isTreeOf_of_parse h with ⟨tokens, htokens, htree⟩
  have hscan := Token.scan_of_scanFrom htokens
  refine ⟨tokens, htokens, ?_⟩
  intro node hnode
  rcases htree.isOverRun hscan.ne_nil hnode with ⟨run, hrun⟩
  unfold ParseOptions.sourceName at hrun
  split
  · rename_i hpositions
    rw [if_pos hpositions] at hrun
    exact hrun.isLocatedIn hscan
  · rename_i hpositions
    rw [if_neg hpositions] at hrun
    rw [hrun.location, Location.ofRun_none]

/-- An empty prelude, an empty value, and an at-rule that the end of the source closes. -/
theorem isLocatedIn_unclosed_page :
    exists tree, parse "\x7b\nb: \x7d @page\x7bc:url( d )" ⟨none, true⟩ = .ok tree ∧
      exists tokens, tokenize "\x7b\nb: \x7d @page\x7bc:url( d )" = .ok tokens ∧
        forall node, node ∈ tree.preorder ->
          node.IsLocatedIn "<unknown>" "\x7b\nb: \x7d @page\x7bc:url( d )".toList tokens := by
  have hok : (parse "\x7b\nb: \x7d @page\x7bc:url( d )" ⟨none, true⟩).toOption.isSome = true := by
    decide +kernel
  cases hparse : parse "\x7b\nb: \x7d @page\x7bc:url( d )" ⟨none, true⟩ with
  | error error =>
      rw [hparse] at hok
      cases hok
  | ok tree => exact ⟨tree, rfl, isLocatedIn_of_parse hparse⟩

end Stylesheet
