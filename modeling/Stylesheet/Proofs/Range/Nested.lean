import Stylesheet.Proofs.Range.Located

/-!
# Ranges are nested

The children of a node are in order and lie in its range, but for an at-rule that the end of the
source closes: its range ends with its last token that is not trivia, and the range of its block
ends with the source.  Main statement: the ranges of a tree are nested unless a source ends in
trivia within the block of an at-rule.
-/

namespace Stylesheet

open Run Sheet

namespace Node

/-- The range of a node lies in the range of another, as far as both are located. -/
def LiesInside (node outer : Node) : Prop :=
  forall location, location ∈ outer.location ->
    node.IsWithin location.start.offset location.stop.offset

/-- Every node lies inside the nodes around it, and behind the siblings before it. -/
structure Nests (tree : Node) : Prop where
  inside : forall outer, outer ∈ tree.preorder -> forall node, node ∈ outer.preorder ->
    node.LiesInside outer
  ordered : forall parent, parent ∈ tree.preorder ->
    parent.construct.children.Pairwise EndsBefore

/-- The block of an at-rule within a tree reaches to an offset. -/
def HasAtRuleTo (stop : Nat) (tree : Node) : Prop :=
  exists node name prelude body location, node ∈ tree.preorder ∧
    node.construct = .atRule name prelude (some body) ∧ body.location = some location ∧
      location.stop.offset = stop

theorem LiesInside.trans {node inner outer : Node} (h : node.LiesInside inner)
    (hinner : inner.LiesInside outer) (hlocated : inner.location ≠ none) :
    node.LiesInside outer := by
  intro location hlocation
  rcases Option.ne_none_iff_exists'.mp hlocated with ⟨between, hbetween⟩
  rcases hinner location hlocation between hbetween with ⟨hstart, _, hstop⟩
  exact (h between hbetween).mono hstart hstop

/-- Nodes lie inside the nodes around them if children lie inside their parents. -/
theorem inside_of_children {tree : Node}
    (hself : forall node, node ∈ tree.preorder -> node.LiesInside node)
    (hleaf : forall node, node ∈ tree.preorder -> node.location = none ->
      node.construct.children = [])
    (hchildren : forall parent, parent ∈ tree.preorder ->
      forall child, child ∈ parent.construct.children -> child.LiesInside parent) :
    forall outer, outer ∈ tree.preorder -> forall node, node ∈ outer.preorder ->
      node.LiesInside outer := by
  intro outer
  induction outer using Node.induction with
  | step outer ih =>
      intro houter node hnode
      rw [preorder_eq] at hnode
      rcases List.mem_cons.mp hnode with rfl | hnode
      · exact hself node houter
      · rcases List.mem_flatMap.mp hnode with ⟨child, hchild, hinner⟩
        have hmem : child ∈ tree.preorder := mem_preorder_of_mem_children houter hchild
        have hwithin := hchildren outer houter child hchild
        by_cases hlocated : child.location = none
        · -- what is not located has no children, so the node is the child itself
          rw [preorder_eq, hleaf child hmem hlocated] at hinner
          rcases List.mem_singleton.mp hinner with rfl
          exact hwithin
        · exact (ih child hchild hmem node hinner).trans hwithin hlocated

end Node

/-- Whitespace or a comment stands before the end of a source. -/
def Run.EndsInTrivia (tokens : List Token) : Prop :=
  exists front trivia last, tokens = front ++ [trivia, last] ∧ trivia.isTrivia = true

/-! ## Rows of children -/

section Rows

variable {source : SourceName} {tokens : List Token} {node body parent tree : Node}

/--
The children of a node stand in a row in the run that the node is over, or in a run that goes on
to the end of the source, of which an at-rule covers what is left when it is trimmed.
-/
inductive CoversRow (source : SourceName) (tokens : List Token) (node : Node) : Prop
  | whole {run : List Token} (hrun : run <:+: tokens)
      (hlocation : node.location = Location.ofRun source run)
      (hrow : Row source (fun _ => true) run node.construct.children)
  | trimmed {run : List Token} {last : Token} {name : String} {prelude : Option Node}
      {body : Node} {start : Position} (hrun : run ++ [last] <:+: tokens)
      (hlast : last.kind = .eof) (hbegins : Begins run)
      (hlocation : node.location = Location.ofRun source (trim run))
      (hrow : Row source (fun _ => true) (run ++ [last]) node.construct.children)
      (hconstruct : node.construct = .atRule name prelude (some body))
      (hbody : body.location = Location.between source start last.stop)

theorem Row.any {gap : TokenKind -> Bool} {run : List Token} {nodes : List Node}
    (h : Row source gap run nodes) (before behind : List Token) :
    Row source (fun _ => true) (before ++ run ++ behind) nodes :=
  ((h.mono fun _ _ => rfl).skip fun _ _ => rfl).pad fun _ _ => rfl

theorem Sheet.Leads.row {owner : Owner} {scope : Scope} {front block covered : List Token}
    {brace : Token} {children : List Node} (h : Leads source owner scope front brace) :
    Row source (fun _ => true) (front ++ block)
      (owner.node source covered (blockOver source block children)).construct.children := by
  have hblock : Row source (fun _ => true) block [blockOver source block children] :=
    Row.singleton rfl
  cases h with
  | @atRule keyword brace name run prelude hkeyword hbrace hprelude =>
      exact (hprelude.row.skip (List.forall_mem_singleton.mpr rfl)).append hblock
  | rule hfirst hbrace hprelude => exact hprelude.row.append hblock

theorem HoldsBlock.coversRow (h : HoldsBlock source tokens node body) :
    CoversRow source tokens node := by
  cases h with
  | @closed front inner brace closer owner scope children htokens hleads hcloser hinner =>
      apply CoversRow.whole htokens (owner.node_location _ _ _)
      rw [List.append_assoc]
      exact hleads.row
  | @unclosed front inner brace last owner scope children htokens hleads hlast hinner =>
      have hrow : Row source (fun _ => true) ((front ++ brace :: inner) ++ [last])
          (owner.node source (owner.covers (front ++ brace :: inner) last)
            (blockOver source (brace :: inner ++ [last]) children)).construct.children := by
        rw [List.append_assoc]
        exact hleads.row
      cases owner with
      | rule start prelude => exact CoversRow.whole htokens rfl hrow
      | atRule keyword name prelude =>
          exact CoversRow.trimmed htokens hlast (hleads.begins inner) rfl hrow rfl
            (Location.ofRun_between source brace last inner)

theorem HoldsBlock.coversRow_body (h : HoldsBlock source tokens node body) :
    CoversRow source tokens body := by
  cases h with
  | @closed front inner brace closer owner scope children htokens hleads hcloser hinner =>
      have hblock : brace :: inner ++ [closer] <:+: tokens :=
        List.IsInfix.trans ⟨front, [], by simp⟩ htokens
      exact CoversRow.whole hblock rfl (hinner.row.any [brace] [closer])
  | @unclosed front inner brace last owner scope children htokens hleads hlast hinner =>
      have hblock : brace :: inner ++ [last] <:+: tokens :=
        List.IsInfix.trans ⟨front, [], by simp⟩ htokens
      have hrow := hinner.row.any [brace] []
      rw [List.append_nil] at hrow
      exact CoversRow.whole hblock rfl hrow

theorem Node.IsTreeOf.coversRow (h : tree.IsTreeOf source tokens) (hnode : node ∈ tree.preorder) :
    CoversRow source tokens node := by
  rcases exists_parent_of_mem_preorder hnode with rfl | ⟨parent, hparent, hchild⟩
  · rcases h.root with ⟨nodes, rfl, hitems⟩
    exact CoversRow.whole List.infix_rfl rfl (hitems.row.mono fun _ _ => rfl)
  · cases h.allRead parent hparent node hchild with
    | plain hrun hover => exact CoversRow.whole hrun hover.location hover.children.row
    | owner h => exact h.coversRow
    | block h => exact h.coversRow_body

end Rows

/-! ## The end of a source -/

namespace Token.Scan

variable {text : List Char} {tokens before behind : List Token} {token : Token}

/-- Nothing stands behind the end of a source. -/
theorem eq_nil_of_eof {position : Position} (h : Scan position text tokens)
    (htokens : tokens = before ++ token :: behind) (heof : token.kind = .eof) : behind = [] := by
  rcases h.ends_at_eof with ⟨body, last, hbody, _, hinner, _⟩
  rcases List.eq_nil_or_concat behind with hnil | ⟨front, other, hconcat⟩
  · exact hnil
  · rw [htokens, hconcat, List.concat_eq_append, ← List.cons_append, ← List.append_assoc] at hbody
    have hfront := (List.append_inj' hbody rfl).left
    exact absurd heof (hinner token (by simp [← hfront]))

/-- What stands in front of another token is not the end of a source. -/
theorem kind_ne_eof {position : Position} {run : List Token} {last : Token}
    (h : Scan position text tokens) (hrun : run ++ [last] <:+: tokens) (hmem : token ∈ run) :
    token.kind ≠ .eof := by
  intro heof
  rcases hrun with ⟨before, behind, htokens⟩
  rcases List.append_of_mem hmem with ⟨front, back, rfl⟩
  have hsplit : tokens = (before ++ front) ++ token :: (back ++ last :: behind) := by
    rw [← htokens]
    simp only [List.append_assoc, List.cons_append, List.nil_append]
  have hnil := h.eq_nil_of_eof hsplit heof
  exact List.cons_ne_nil _ _ (List.append_eq_nil_iff.mp hnil).right

theorem stop_offset_of_eof (h : Scan .start text tokens)
    (htokens : tokens = before ++ [token]) : token.stop.offset = text.length := by
  have hadjoins := h.adjoins
  rw [htokens] at hadjoins
  rw [hadjoins.offsets.right, ← h.chars_eq, htokens, chars_append, chars_singleton,
    List.length_append]

/-- Only the last two tokens of a source may reach to its end. -/
theorem eq_or_eq_of_stop {front : List Token} {trivia last : Token} (h : Scan .start text tokens)
    (hends : tokens = front ++ [trivia, last]) (hne : trivia.text ≠ "") (hmem : token ∈ tokens)
    (hstop : text.length <= token.stop.offset) : token = trivia ∨ token = last := by
  rcases List.append_of_mem hmem with ⟨before, behind, hsplit⟩
  have hadjoins := h.adjoins
  rw [hsplit] at hadjoins
  have hbehind : (chars behind).length = 0 := by
    have hlength := congrArg List.length h.chars_eq
    rw [hsplit, chars_append, chars_cons, List.length_append, List.length_append] at hlength
    rw [hadjoins.offsets.right] at hstop
    omega
  rw [hends] at hsplit
  rcases List.append_eq_append_iff.mp hsplit with ⟨between, _, htwo⟩ | ⟨between, _, htwo⟩
  · have hin : token ∈ [trivia, last] := by
      rw [htwo]
      exact List.mem_append_right _ List.mem_cons_self
    simpa using hin
  · cases between with
    | nil =>
        rw [List.nil_append, List.cons.injEq] at htwo
        exact Or.inl htwo.left
    | cons other between =>
        rw [List.cons_append, List.cons.injEq] at htwo
        have hwidth : 0 < trivia.text.toList.length := by
          rw [List.length_pos_iff]
          simpa using hne
        rw [htwo.right, chars_append, chars_cons] at hbehind
        simp only [List.length_append] at hbehind
        omega

end Token.Scan

section Ends

variable {name : String} {text : List Char} {tokens : List Token} {node body outer tree : Node}

/-! ## Children inside their parents -/

/-- Nodes in a row lie inside what covers the row but for an empty end. -/
theorem Row.liesInside {gap : TokenKind -> Bool} {before run back behind : List Token}
    {nodes : List Node} (h : Row (some name) gap (run ++ back) nodes)
    (hadjoins : Adjoins .start (before ++ (run ++ back) ++ behind)) (hback : chars back = [])
    (hlocation : outer.location = Location.ofRun (some name) run) :
    forall node, node ∈ nodes -> node.LiesInside outer := by
  intro node hnode location hsome
  have hrun : Location.ofRun (some name) run = some location := hlocation.symm.trans hsome
  have hadjoins' : Adjoins .start (before ++ run ++ (back ++ behind)) := by
    simpa only [List.append_assoc] using hadjoins
  rw [Location.ofRun_eq hadjoins' (Location.ne_nil_of_ofRun_eq_some hrun)] at hrun
  cases hrun
  have hwithin := h.isWithin hadjoins node hnode
  rw [← List.append_assoc, chars_append _ back, hback, List.append_nil] at hwithin
  simpa only [offset_positionBehind] using hwithin

theorem CoversRow.ordered (h : CoversRow (some name) tokens node)
    (hscan : Token.Scan .start text tokens) :
    node.construct.children.Pairwise Node.EndsBefore := by
  cases h with
  | whole hrun hlocation hrow =>
      rcases hrun with ⟨before, behind, rfl⟩
      exact hrow.endsBefore hscan.adjoins
  | trimmed hrun hlast hbegins hlocation hrow hconstruct hbody =>
      rcases hrun with ⟨before, behind, rfl⟩
      exact hrow.endsBefore hscan.adjoins

/-- Children lie inside their parent unless an at-rule is cut off before trivia. -/
theorem CoversRow.liesInside (h : CoversRow (some name) tokens node)
    (hscan : Token.Scan .start text tokens) (hnode : node ∈ tree.preorder)
    (hends : EndsInTrivia tokens -> ¬ tree.HasAtRuleTo text.length) :
    forall child, child ∈ node.construct.children -> child.LiesInside node := by
  cases h with
  | @whole run hrun hlocation hrow =>
      rcases hrun with ⟨before, behind, rfl⟩
      have hrow' : Row (some name) (fun _ => true) (run ++ []) node.construct.children := by
        rw [List.append_nil]
        exact hrow
      have hadjoins : Adjoins .start (before ++ (run ++ []) ++ behind) := by
        rw [List.append_nil]
        exact hscan.adjoins
      exact hrow'.liesInside hadjoins chars_nil hlocation
  | @trimmed run last rule prelude body start hrun hlast hbegins hlocation hrow hconstruct hbody =>
      rcases hrun with ⟨before, behind, htokens⟩
      have hsplit : tokens = (before ++ run) ++ last :: behind := by
        rw [← htokens]
        simp only [List.append_assoc, List.cons_append, List.nil_append]
      have hnil := hscan.eq_nil_of_eof hsplit hlast
      rw [hnil] at hsplit
      have hto : tree.HasAtRuleTo text.length :=
        ⟨node, rule, prelude, body, _, hnode, hconstruct, hbody, hscan.stop_offset_of_eof hsplit⟩
      have hfull : trim run = run := by
        rcases hbegins with ⟨first, rest, hfirst, htrivia⟩
        rcases List.eq_nil_or_concat run with hnil | ⟨front, token, hconcat⟩
        · rw [hnil] at hfirst
          cases hfirst
        · rw [List.concat_eq_append] at hconcat
          apply trim_eq_self ⟨first, rest, hfirst, htrivia⟩
          refine ⟨front, token, hconcat, ?_⟩
          rw [← Bool.not_eq_true]
          intro htoken
          apply hends ⟨before ++ front, token, last, _, htoken⟩ hto
          rw [hsplit, hconcat]
          simp only [List.append_assoc, List.cons_append, List.nil_append]
      rw [hfull] at hlocation
      have hempty : chars [last] = [] := hscan.chars_of_eof (by simp [hsplit]) hlast
      have hadjoins : Adjoins .start (before ++ (run ++ [last]) ++ behind) := by
        rw [htokens]
        exact hscan.adjoins
      exact hrow.liesInside hadjoins hempty hlocation

/-- What an at-rule with a block covers ends with a token that is not trivia. -/
theorem HoldsBlock.exists_last (h : HoldsBlock (some name) tokens node body)
    (hscan : Token.Scan .start text tokens) (htype : node.type = .atRule) :
    exists token location, token ∈ tokens ∧ token.isTrivia = false ∧ token.kind ≠ .eof ∧
      node.location = some location ∧ location.stop = token.stop := by
  cases h with
  | @closed front inner brace closer owner scope children htokens hleads hcloser hinner =>
      rcases hleads.head? (inner ++ [closer]) with ⟨first, hfirst, _⟩
      refine ⟨closer, ⟨name, first.start, closer.stop⟩, ?_, ?_, ?_, ?_, rfl⟩
      · exact htokens.subset (List.mem_append_right _ List.mem_cons_self)
      · rw [Token.isTrivia, hcloser]
        rfl
      · rw [hcloser]
        exact TokenKind.noConfusion
      · rw [owner.node_location]
        apply Location.ofRun_of_ends
        · rw [List.append_assoc, List.cons_append]
          exact hfirst
        · exact List.getLast?_concat
  | @unclosed front inner brace last owner scope children htokens hleads hlast hinner =>
      cases owner with
      | rule => cases htype
      | atRule keyword name' prelude =>
          have hne : trim (front ++ brace :: inner) ≠ [] :=
            @Leads.covers_ne_nil _ _ _ _ _ _ last hleads
          rcases begins_and_ends_of_trim_ne_nil hne with
            ⟨⟨first, rest, hfirst, _⟩, before, token, htrim, htrivia⟩
          have hrun : token ∈ front ++ brace :: inner := by
            apply (trim_sublist _).subset
            rw [htrim]
            exact List.mem_append_right _ List.mem_cons_self
          refine ⟨token, ⟨name, first.start, token.stop⟩, ?_, htrivia, ?_, ?_, rfl⟩
          · exact htokens.subset (List.mem_append_left _ hrun)
          · exact hscan.kind_ne_eof htokens hrun
          · apply Location.ofRun_of_ends
            · rw [Owner.covers, hfirst]
              rfl
            · rw [Owner.covers, htrim]
              exact List.getLast?_concat

theorem Node.IsTreeOf.holdsBlock {rule : String} {prelude : Option Node}
    (h : tree.IsTreeOf (some name) tokens) (hnode : node ∈ tree.preorder)
    (hconstruct : node.construct = .atRule rule prelude (some body)) :
    exists block, HoldsBlock (some name) tokens node block := by
  have htype : node.type = .atRule := congrArg Construct.type hconstruct
  rcases exists_parent_of_mem_preorder hnode with rfl | ⟨parent, hparent, hchild⟩
  · rcases h.root with ⟨nodes, rfl, _⟩
    cases htype
  · cases h.allRead parent hparent node hchild with
    | plain hrun hover =>
        have hfits := hover.fits
        rw [hconstruct] at hfits
        cases hfits
    | owner h => exact ⟨_, h⟩
    | block h =>
        have hblock := h.types.right
        rw [htype] at hblock
        cases hblock

/-- If all is nested, the block of an at-rule does not reach behind trivia to the end. -/
theorem Node.Nests.not_hasAtRuleTo (h : tree.Nests) (htree : tree.IsTreeOf (some name) tokens)
    (hscan : Token.Scan .start text tokens) (hends : EndsInTrivia tokens) :
    ¬ tree.HasAtRuleTo text.length := by
  rintro ⟨node, rule, prelude, body, location, hnode, hconstruct, hlocation, hstop⟩
  rcases htree.holdsBlock hnode hconstruct with ⟨block, hblock⟩
  rcases hblock.exists_last hscan (congrArg Construct.type hconstruct) with
    ⟨token, covered, htoken, htrivia, heof, hcovered, hlast⟩
  have hbody : body ∈ node.preorder := by
    apply mem_preorder_of_mem_children (self_mem_preorder node)
    rw [hconstruct]
    exact List.mem_append_right _ List.mem_cons_self
  have hinside := h.inside node hnode body hbody covered hcovered location hlocation
  rcases hends with ⟨front, trivia, last, htokens, hblank⟩
  have hkind : last.kind = .eof := by
    rcases hscan.ends_at_eof with ⟨before, end', hsplit, hend, _⟩
    rw [htokens, List.append_cons] at hsplit
    rw [(List.cons.inj (List.append_inj' hsplit rfl).right).left]
    exact hend
  have hne : trivia.text ≠ "" := by
    have hmem : trivia ∈ tokens := by simp [htokens]
    apply (hscan.isSpelled hmem).text_ne_empty
    intro hnone
    rw [Token.isTrivia, hnone] at hblank
    cases hblank
  have hreach : text.length <= token.stop.offset := by
    rw [← hlast, ← hstop]
    exact hinside.right.right
  rcases hscan.eq_or_eq_of_stop htokens hne htoken hreach with rfl | rfl
  · rw [hblank] at htrivia
    cases htrivia
  · exact heof hkind

/-- The children of every node are in order, and apart. -/
theorem Node.IsTreeOf.ordered (h : tree.IsTreeOf (some name) tokens)
    (hscan : Token.Scan .start text tokens) : forall parent, parent ∈ tree.preorder ->
      parent.construct.children.Pairwise Node.EndsBefore := by
  intro parent hparent
  exact (h.coversRow hparent).ordered hscan

/-- All is nested if no at-rule is cut off before trivia. -/
theorem Node.IsTreeOf.nests (h : tree.IsTreeOf (some name) tokens)
    (hscan : Token.Scan .start text tokens)
    (hends : EndsInTrivia tokens -> ¬ tree.HasAtRuleTo text.length) : tree.Nests where
  inside := by
    have hlocated : forall node, node ∈ tree.preorder -> node.IsLocatedIn name text tokens := by
      intro node hnode
      rcases h.isOverRun hscan.ne_nil hnode with ⟨run, hrun⟩
      exact hrun.isLocatedIn hscan
    apply Node.inside_of_children
    · intro node hnode location hlocation other hother
      have haccurate := (hlocated node hnode).accurate location hlocation
      cases hlocation.symm.trans hother
      exact ⟨Nat.le_refl _, haccurate.ordered, Nat.le_refl _⟩
    · intro node hnode hnone
      rcases (hlocated node hnode).unlocated hnone with hconstruct | hconstruct
      · rw [hconstruct]
        rfl
      · rw [hconstruct]
        rfl
    · intro parent hparent
      exact (h.coversRow hparent).liesInside hscan hparent hends
  ordered := h.ordered hscan

end Ends

/--
Siblings are in order and apart, and ranges are nested unless a source ends in trivia within the
block of an at-rule.
-/
theorem ordered_and_nests_iff {text : String} {options : ParseOptions} {tree : Node}
    (hpositions : options.positions = true) (h : parse text options = .ok tree) :
    exists tokens, tokenize text = .ok tokens ∧
      (forall parent, parent ∈ tree.preorder ->
        parent.construct.children.Pairwise Node.EndsBefore) ∧
      (tree.Nests <-> ¬ (EndsInTrivia tokens ∧ tree.HasAtRuleTo text.toList.length)) := by
  rcases isTreeOf_of_parse h with ⟨tokens, htokens, htree⟩
  have hscan := Token.scan_of_scanFrom htokens
  rw [ParseOptions.sourceName_of_positions hpositions] at htree
  refine ⟨tokens, htokens, htree.ordered hscan, ?_, ?_⟩
  · rintro hnests ⟨hends, hrule⟩
    exact hnests.not_hasAtRuleTo htree hscan hends hrule
  · intro hends
    apply htree.nests hscan
    intro htrivia hrule
    exact hends ⟨htrivia, hrule⟩

/-- A rule within an at-rule, both of which the end of the source closes. -/
theorem nests_unclosed_media :
    exists tree, parse "@media x\x7ba\x7bb:c" ⟨none, true⟩ = .ok tree ∧ tree.Nests := by
  have hok : (parse "@media x\x7ba\x7bb:c" ⟨none, true⟩).toOption.isSome = true := by
    decide +kernel
  have hlast : (tokenize "@media x\x7ba\x7bb:c").toOption.map
      (fun tokens => tokens.dropLast.getLast?.map Token.isTrivia) = some (some false) := by
    decide +kernel
  cases hparse : parse "@media x\x7ba\x7bb:c" ⟨none, true⟩ with
  | error error =>
      rw [hparse] at hok
      cases hok
  | ok tree =>
      rcases ordered_and_nests_iff rfl hparse with ⟨tokens, htokens, _, hiff⟩
      refine ⟨tree, rfl, hiff.mpr ?_⟩
      rintro ⟨⟨front, trivia, last, rfl, htrivia⟩, _⟩
      rw [htokens] at hlast
      simp [Except.toOption, htrivia] at hlast

/-- The block of an at-rule sticks out behind a space at the end of the source. -/
theorem not_nests_unclosed_space :
    exists tree, parse "@a\x7b " ⟨none, true⟩ = .ok tree ∧ ¬ tree.Nests := by
  have hranges : (parse "@a\x7b " ⟨none, true⟩).toOption.map (fun tree =>
      tree.construct.children.map fun node =>
        (node.location, node.construct.children.map Node.location)) =
      some [(some ⟨"<unknown>", ⟨1, 1, 0⟩, ⟨1, 4, 3⟩⟩,
        [some ⟨"<unknown>", ⟨1, 3, 2⟩, ⟨1, 5, 4⟩⟩])] := by
    decide +kernel
  cases hparse : parse "@a\x7b " ⟨none, true⟩ with
  | error error =>
      rw [hparse] at hranges
      cases hranges
  | ok tree =>
      rw [hparse] at hranges
      rcases List.map_eq_singleton_iff.mp (Option.some.inj hranges) with ⟨rule, hrule, hpair⟩
      rcases Prod.mk.inj hpair with ⟨hlocation, hchildren⟩
      rcases List.map_eq_singleton_iff.mp hchildren with ⟨block, hblock, hwithin⟩
      refine ⟨tree, rfl, ?_⟩
      intro hnests
      have hmem : rule ∈ tree.preorder :=
        Node.mem_preorder_of_mem_children (Node.self_mem_preorder tree) (by simp [hrule])
      have hinner : block ∈ rule.preorder :=
        Node.mem_preorder_of_mem_children (Node.self_mem_preorder rule) (by simp [hblock])
      have hinside := hnests.inside rule hmem block hinner _ hlocation _ hwithin
      exact absurd hinside.right.right (by decide)

end Stylesheet
