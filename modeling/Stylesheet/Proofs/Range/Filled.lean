import Stylesheet.Proofs.Range.Located

/-!
# Every token has its item

Main statement: the items of a stylesheet, and the items of every block within it, are in order,
and every token that may not stand between items lies in the range of just one of them.
-/

namespace Stylesheet

open Run Sheet

/-- The block of a rule or an at-rule, and what it holds. -/
def Node.body? (node : Node) : Option (Scope × Node) :=
  match node.construct with
  | .rule _ body => some (.declarations, body)
  | .atRule name _ (some body) => some (scopeOf name, body)
  | _ => none

/--
Items of a scope that fill some tokens: they are located one behind another, and a token that
the scope does not skip lies in just one.
-/
structure Sheet.Scope.IsFilled (scope : Scope) (tokens : List Token) (items : List Node) :
    Prop where
  located : forall item, item ∈ items -> item.location.isSome = true
  ordered : items.Pairwise Node.EndsBefore
  covered : forall token, token ∈ tokens -> scope.skips token.kind = false ->
    items.countP token.liesIn = 1

/--
A block reaches from its brace to its closer, or to the end of the source if it is not closed, and
its items fill what stands between.
-/
structure Node.IsFilledBetween (name : String) (scope : Scope) (brace closer : Token)
    (inner : List Token) (items : List Node) (block : Node) : Prop where
  opens : brace.kind = .leftBrace
  closes : closer.kind = .rightBrace ∨ closer.kind = .eof
  location : block.location = some ⟨name, brace.start, closer.stop⟩
  within : forall item, item ∈ items -> item.IsWithin brace.stop.offset closer.start.offset
  filled : scope.IsFilled inner items

namespace Sheet

variable {source : SourceName} {name : String} {text : List Char} {tokens : List Token}
  {ends : Bool} {scope : Scope} {run before behind : List Token} {nodes : List Node}

theorem Items.exists_run (h : Items source ends scope run nodes) :
    forall node, node ∈ nodes ->
      exists inner, inner ≠ [] ∧ node.location = Location.ofRun source inner := by
  induction h with
  | nil =>
      intro node hnode
      cases hnode
  | skip hskips hrest ih => exact ih
  | item hne hnode hrest ih =>
      exact List.forall_mem_cons.mpr ⟨⟨_, hne, hnode.location⟩, ih⟩
  | @closed ends scope within front inner rest brace closer owner children nodes hleads hcloser
      hinner hrest ihinner ih =>
      exact List.forall_mem_cons.mpr ⟨⟨_, by simp, owner.node_location _ _ _⟩, ih⟩
  | @unclosed scope within front inner brace last owner children hleads hlast hinner ih =>
      exact List.forall_mem_singleton.mpr
        ⟨_, @Leads.covers_ne_nil _ _ _ _ _ _ last hleads, owner.node_location _ _ _⟩

/-- Items in a run of a source fill the run. -/
theorem Items.isFilled (h : Items (some name) ends scope run nodes)
    (hscan : Token.Scan .start text tokens) (htokens : tokens = before ++ run ++ behind) :
    scope.IsFilled run nodes where
  located := by
    intro node hnode
    rcases h.exists_run node hnode with ⟨inner, hne, hlocation⟩
    rw [hlocation, Option.isSome_iff_ne_none]
    intro hnone
    exact hne (Location.ofRun_eq_none_iff.mp hnone)
  ordered := h.row.endsBefore (htokens ▸ hscan.adjoins)
  covered := by
    intro token htoken hskips
    have hmem : token ∈ tokens := by
      rw [htokens]
      exact List.mem_append_left _ (List.mem_append_right _ htoken)
    have hne : token.text ≠ "" := by
      apply (hscan.isSpelled hmem).text_ne_empty
      intro heof
      rw [heof] at hskips
      cases hskips
    exact h.row.countP_liesIn (htokens ▸ hscan.adjoins) htoken hne hskips

theorem Scope.IsFilled.front {front back : List Token} (h : scope.IsFilled (front ++ back) nodes) :
    scope.IsFilled front nodes where
  located := h.located
  ordered := h.ordered
  covered := by
    intro token htoken
    exact h.covered token (List.mem_append_left _ htoken)

theorem Leads.body? {owner : Owner} {front : List Token} {brace : Token}
    (h : Leads source owner scope front brace) (covered : List Token) (body : Node) :
    (owner.node source covered body).body? = some (scope, body) ∧ brace.kind = .leftBrace := by
  cases h with
  | atRule hkeyword hbrace hprelude => exact ⟨rfl, hbrace⟩
  | rule hfirst hbrace hprelude => exact ⟨rfl, hbrace⟩

end Sheet

section Blocks

variable {name : String} {text : List Char} {tokens front inner behind : List Token}
  {brace closer : Token} {scope : Scope} {items : List Node} {node body block tree : Node}

theorem isFilledBetween_of_closed (hscan : Token.Scan .start text tokens)
    (htokens : tokens = front ++ brace :: inner ++ closer :: behind)
    (hbrace : brace.kind = .leftBrace) (hcloser : closer.kind = .rightBrace)
    (h : Items (some name) false scope inner items) :
    (blockOver (some name) (brace :: inner ++ [closer]) items).IsFilledBetween name scope brace
      closer inner items := by
  have hbefore : tokens = front ++ brace :: (inner ++ closer :: behind) := by
    rw [htokens, List.append_assoc, List.cons_append]
  have hinner : tokens = (front ++ [brace]) ++ inner ++ closer :: behind := by
    rw [htokens, ← List.append_cons]
  constructor
  · exact hbrace
  · exact Or.inl hcloser
  · exact Location.ofRun_between (some name) brace closer inner
  · intro item hitem
    rw [(hbefore ▸ hscan.adjoins : Adjoins .start _).token.right,
      (hinner ▸ hscan.adjoins : Adjoins .start _).token.left, offset_positionBehind,
      offset_positionBehind]
    exact h.row.isWithin (hinner ▸ hscan.adjoins) item hitem
  · exact h.isFilled hscan hinner

theorem isFilledBetween_of_unclosed (hscan : Token.Scan .start text tokens)
    (htokens : tokens = front ++ brace :: inner ++ closer :: behind)
    (hbrace : brace.kind = .leftBrace) (hcloser : closer.kind = .eof)
    (h : Items (some name) true scope (inner ++ [closer]) items) :
    (blockOver (some name) (brace :: inner ++ [closer]) items).IsFilledBetween name scope brace
      closer inner items := by
  have hbefore : tokens = front ++ brace :: (inner ++ closer :: behind) := by
    rw [htokens, List.append_assoc, List.cons_append]
  have hinner : tokens = (front ++ [brace]) ++ inner ++ closer :: behind := by
    rw [htokens, ← List.append_cons]
  have hwhole : tokens = (front ++ [brace]) ++ (inner ++ [closer]) ++ behind := by
    rw [hinner]
    simp only [List.append_assoc, List.cons_append, List.nil_append]
  have hempty : chars [closer] = [] := hscan.chars_of_eof (by simp [htokens]) hcloser
  constructor
  · exact hbrace
  · exact Or.inr hcloser
  · exact Location.ofRun_between (some name) brace closer inner
  · -- the end of the source is empty, so what reaches behind it reaches up to it
    intro item hitem
    have hwithin := h.row.isWithin (hwhole ▸ hscan.adjoins) item hitem
    rw [← List.append_assoc, chars_append _ [closer], hempty, List.append_nil] at hwithin
    rw [(hbefore ▸ hscan.adjoins : Adjoins .start _).token.right,
      (hinner ▸ hscan.adjoins : Adjoins .start _).token.left, offset_positionBehind,
      offset_positionBehind]
    exact hwithin
  · exact (h.isFilled hscan hwhole).front

/-- What belongs to a block says what the block holds, and its items fill it. -/
theorem HoldsBlock.isFilledBetween (h : HoldsBlock (some name) tokens node body)
    (hscan : Token.Scan .start text tokens) :
    exists scope items front brace inner closer behind, node.body? = some (scope, body) ∧
      body.construct = .block items ∧ tokens = front ++ brace :: inner ++ closer :: behind ∧
        body.IsFilledBetween name scope brace closer inner items := by
  have hsplit : forall {before front inner behind : List Token} {brace closer : Token},
      before ++ ((front ++ brace :: inner) ++ [closer]) ++ behind =
        (before ++ front) ++ brace :: inner ++ closer :: behind := by
    intro before front inner behind brace closer
    simp only [List.append_assoc, List.cons_append, List.nil_append]
  cases h with
  | @closed front inner brace closer owner scope children htokens hleads hcloser hinner =>
      rcases hleads.body? ((front ++ brace :: inner) ++ [closer])
        (blockOver (some name) (brace :: inner ++ [closer]) children) with ⟨hbody, hbrace⟩
      rcases htokens with ⟨before, behind, htokens⟩
      exact ⟨scope, children, _, brace, inner, closer, behind, hbody, rfl,
        htokens.symm.trans hsplit,
        isFilledBetween_of_closed hscan (htokens.symm.trans hsplit) hbrace hcloser hinner⟩
  | @unclosed front inner brace last owner scope children htokens hleads hlast hinner =>
      rcases hleads.body? (owner.covers (front ++ brace :: inner) last)
        (blockOver (some name) (brace :: inner ++ [last]) children) with ⟨hbody, hbrace⟩
      rcases htokens with ⟨before, behind, htokens⟩
      exact ⟨scope, children, _, brace, inner, last, behind, hbody, rfl,
        htokens.symm.trans hsplit,
        isFilledBetween_of_unclosed hscan (htokens.symm.trans hsplit) hbrace hlast hinner⟩

/-- Every block of a tree is held by a rule or an at-rule. -/
theorem Node.IsTreeOf.holder (h : tree.IsTreeOf (some name) tokens) (hblock : block ∈ tree.preorder)
    (hconstruct : block.construct = .block items) :
    exists holder, holder ∈ tree.preorder ∧ HoldsBlock (some name) tokens holder block := by
  have htype : block.type = .block := congrArg Construct.type hconstruct
  rcases exists_parent_of_mem_preorder hblock with rfl | ⟨parent, hparent, hchild⟩
  · rcases h.root with ⟨nodes, rfl, _⟩
    cases htype
  · cases h.allRead parent hparent block hchild with
    | plain hrun hover =>
        have hfits := hover.fits
        rw [hconstruct] at hfits
        cases hfits
    | owner h =>
        have hmem := h.types.left
        rw [htype] at hmem
        exact absurd hmem (by decide)
    | block h => exact ⟨parent, hparent, h⟩

end Blocks

/--
The items of a stylesheet fill its tokens, and those of a block fill what stands between its
braces.
-/
theorem isFilled_of_parse {text : String} {options : ParseOptions} {tree : Node}
    (hpositions : options.positions = true) (h : parse text options = .ok tree) :
    exists tokens items, tokenize text = .ok tokens ∧ tree.construct = .styleSheet items ∧
      Scope.sheet.IsFilled tokens items ∧
        forall block, block ∈ tree.preorder -> forall inside, block.construct = .block inside ->
          exists holder scope front brace inner closer behind, holder ∈ tree.preorder ∧
            holder.body? = some (scope, block) ∧
              tokens = front ++ brace :: inner ++ closer :: behind ∧
                block.IsFilledBetween (options.filename.getD "<unknown>") scope brace closer inner
                  inside := by
  rcases isTreeOf_of_parse h with ⟨tokens, htokens, htree⟩
  have hscan := Token.scan_of_scanFrom htokens
  rw [ParseOptions.sourceName_of_positions hpositions] at htree
  rcases htree.root with ⟨items, hroot, hitems⟩
  have hwhole : tokens = [] ++ tokens ++ [] := by rw [List.nil_append, List.append_nil]
  refine ⟨tokens, items, htokens, congrArg Node.construct hroot, ?_, ?_⟩
  · exact hitems.isFilled hscan hwhole
  · intro block hblock inside hconstruct
    rcases htree.holder hblock hconstruct with ⟨holder, hholder, hholds⟩
    rcases hholds.isFilledBetween hscan with
      ⟨scope, items', front, brace, inner, closer, behind, hbody, hinside, hsplit, hfilled⟩
    rw [hconstruct] at hinside
    cases hinside
    exact ⟨holder, scope, front, brace, inner, closer, behind, hholder, hbody, hsplit, hfilled⟩

/-- Nested blocks, marks of old comments in and outside of a block, and no end of the last block. -/
theorem isFilled_unclosed_media :
    exists tree, parse "<!--@media x\x7b-->a\x7bb:c;;\x7d@page\x7bd:e " ⟨none, true⟩ = .ok tree ∧
      exists tokens items,
        tokenize "<!--@media x\x7b-->a\x7bb:c;;\x7d@page\x7bd:e " = .ok tokens ∧
          tree.construct = .styleSheet items ∧ Scope.sheet.IsFilled tokens items ∧
            forall block, block ∈ tree.preorder ->
              forall inside, block.construct = .block inside ->
                exists holder scope front brace inner closer behind, holder ∈ tree.preorder ∧
                  holder.body? = some (scope, block) ∧
                    tokens = front ++ brace :: inner ++ closer :: behind ∧
                      block.IsFilledBetween "<unknown>" scope brace closer inner inside := by
  have hok : (parse "<!--@media x\x7b-->a\x7bb:c;;\x7d@page\x7bd:e " ⟨none, true⟩).toOption.isSome =
      true := by
    decide +kernel
  cases hparse : parse "<!--@media x\x7b-->a\x7bb:c;;\x7d@page\x7bd:e " ⟨none, true⟩ with
  | error error =>
      rw [hparse] at hok
      cases hok
  | ok tree => exact ⟨tree, rfl, isFilled_of_parse rfl hparse⟩

end Stylesheet
