import Stylesheet.Proofs.Range.Items
import Stylesheet.Proofs.Range.Selector
import Stylesheet.Proofs.Sheet.Steps

/-!
# Stylesheets are read as items

What has been read of a stylesheet is a list of items, and a list of items within each open
block.  Main statements: every step keeps it so, and the tokens of a source are read as items.
-/

namespace Stylesheet

open Run

variable {source : SourceName}

/-! ## Declarations -/

namespace Declaration

theorem splitImportant_isInfix (run : List Token) : (splitImportant run).1 <:+: run := by
  unfold splitImportant
  split
  · rename_i word earlier hreverse
    split
    · rename_i bang front hfront
      split
      · have hbefore : front <:+ (trim run).reverse := by
          rw [hreverse]
          apply List.IsSuffix.trans _ (List.suffix_cons word earlier)
          apply (List.suffix_cons bang front).trans
          rw [← hfront]
          exact trimStart_suffix earlier
        have hfront : front.reverse <+: trim run := by
          rw [← List.reverse_suffix, List.reverse_reverse]
          exact hbefore
        exact (isInfix_trim _).trans (hfront.isInfix.trans (isInfix_trim run))
      · exact isInfix_trim run
    · exact isInfix_trim run
  · exact List.nil_infix

theorem over_value {run : List Token} (property : String) (hspelled : Run.IsSpelled run) :
    exists inner, inner <:+: run ∧ (value source property run).Over source .value inner := by
  unfold value
  split
  · exact ⟨run, List.infix_rfl, Node.Over.raw source .value run⟩
  · exact ⟨trim run, isInfix_trim run, Value.over_ofRun hspelled⟩

/-- The property of a declaration is what it begins with. -/
theorem text_property (run : List Token) (p : Token -> Bool) :
    exists front back, trim run = front ++ back ∧
      trim ((trim run).takeWhile p) = front := by
  have hfront : trim ((trim run).takeWhile p) <+: trim run := by
    apply List.IsPrefix.trans _ (List.takeWhile_prefix p)
    cases htake : (trim run).takeWhile p with
    | nil => exact List.nil_prefix
    | cons token rest =>
        have hbegins : Begins (token :: rest) := by
          rcases List.takeWhile_prefix (l := trim run) p with ⟨back, hback⟩
          rw [htake, List.cons_append] at hback
          exact begins_cons (not_trivia_of_trim_eq_cons hback.symm) rest
        have h := trim_prefix_trimStart (token :: rest)
        rw [trimStart_eq_self hbegins] at h
        exact h
  rcases hfront with ⟨back, hback⟩
  exact ⟨_, back, hback.symm, rfl⟩

/-- A declaration covers its run without the trivia at its ends. -/
theorem over_parse {first : Token} {rest : List Token} {node : Node}
    (hspelled : Run.IsSpelled (first :: rest)) (h : parse source first rest = .ok node) :
    trim (first :: rest) ≠ [] ∧ node.Over source .value (trim (first :: rest)) := by
  simp only [parse] at h
  split at h
  · cases h
  · rename_i colon behind hbehind
    split at h
    · cases h
      have hwithin : behind <:+: trim (first :: rest) := by
        apply (List.suffix_cons colon behind).isInfix.trans
        rw [← hbehind]
        exact (List.dropWhile_suffix _).isInfix
      have hne : trim (first :: rest) ≠ [] := by
        intro hnil
        rw [hnil] at hbehind
        cases hbehind
      have hcontent : (splitImportant behind).1 <:+: trim (first :: rest) :=
        (splitImportant_isInfix behind).trans hwithin
      rcases @over_value source _
        (text (trim ((trim (first :: rest)).takeWhile (·.kind != .colon))))
        (hspelled.sublist (hcontent.sublist.trans (trim_sublist _))) with ⟨inner, hinner, hover⟩
      rcases text_property (first :: rest) (·.kind != .colon) with ⟨front, back, hrun, hfront⟩
      refine ⟨hne, Node.Over.spanning hne ⟨front, back, hrun, congrArg text hfront⟩ ?_⟩
      exact (hover.under .declaration).placed.mono (hinner.trans hcontent)
    · cases h

end Declaration

namespace Sheet

/-! ## Closing blocks -/

theorem Leads.head? {owner : Owner} {scope : Scope} {front : List Token} {brace : Token}
    (h : Leads source owner scope front brace) (behind : List Token) :
    exists first, (front ++ brace :: behind).head? = some first ∧
      match owner with
      | .atRule keyword _ _ => first = keyword
      | .rule start _ => first.start = start := by
  cases h with
  | atRule hkeyword hbrace hprelude => exact ⟨_, rfl, rfl⟩
  | @rule first brace front prelude hfirst hbrace hprelude =>
      refine ⟨first, ?_, rfl⟩
      cases front with
      | nil => exact hfirst
      | cons token rest => exact hfirst

/-- An at-rule begins with its keyword, and so with no trivia. -/
theorem Leads.begins {keyword brace : Token} {name : String} {prelude : Option Node} {scope : Scope}
    {front : List Token} (h : Leads source (.atRule keyword name prelude) scope front brace)
    (behind : List Token) : Begins (front ++ brace :: behind) := by
  cases h with
  | atRule hkeyword hbrace hprelude =>
      apply begins_cons
      rw [Token.isTrivia, hkeyword]
      rfl

/-- A block with its brace is closed over its tokens. -/
theorem close_closed {block : OpenBlock} {front inner : List Token} {closer : Token}
    (hleads : Leads source block.owner block.scope front block.brace) :
    block.close source closer.stop closer.stop =
      block.owner.node source ((front ++ block.brace :: inner) ++ [closer])
        (blockOver source (block.brace :: inner ++ [closer]) block.children.reverse) := by
  rcases block with ⟨owner, brace, scope, children⟩
  rcases hleads.head? (inner ++ [closer]) with ⟨first, hfirst, howner⟩
  have hcovered : Location.ofRun source ((front ++ brace :: inner) ++ [closer]) =
      Location.between source first.start closer.stop := by
    apply Location.ofRun_of_ends
    · rw [List.append_assoc, List.cons_append]
      exact hfirst
    · exact List.getLast?_concat
  have hbody : Location.ofRun source (brace :: inner ++ [closer]) =
      Location.between source brace.start closer.stop := Location.ofRun_between ..
  cases owner with
  | atRule keyword name prelude =>
      rw [howner] at hcovered
      simp only [OpenBlock.close, Owner.node, blockOver, Node.spanning, hcovered, hbody]
  | rule start prelude =>
      rw [howner] at hcovered
      simp only [OpenBlock.close, Owner.node, blockOver, Node.spanning, hcovered, hbody]

/-- A block without its brace is closed at the end of the source. -/
theorem close_unclosed {block : OpenBlock} {before front inner : List Token} {last : Token}
    (hleads : Leads source block.owner block.scope front block.brace) :
    block.close source last.stop
        (stopOf (trim (before ++ (front ++ block.brace :: inner)))) =
      block.owner.node source (block.owner.covers (front ++ block.brace :: inner) last)
        (blockOver source (block.brace :: inner ++ [last]) block.children.reverse) := by
  rcases block with ⟨owner, brace, scope, children⟩
  have hbody : Location.ofRun source (brace :: inner ++ [last]) =
      Location.between source brace.start last.stop := Location.ofRun_between ..
  cases owner with
  | atRule keyword name prelude =>
      rcases hleads.head? inner with ⟨first, hfirst, hkeyword⟩
      have hbegins := hleads.begins inner
      have hne := hbegins.trim_ne_nil
      have hcovered : Location.ofRun source (trim (front ++ brace :: inner)) =
          Location.between source keyword.start
            (stopOf (trim (before ++ (front ++ brace :: inner)))) := by
        rw [← hkeyword, stopOf, getLast?_trim_append hne, List.getLast?_eq_some_getLast hne]
        apply Location.ofRun_of_ends
        · rw [hbegins.head?_trim]
          exact hfirst
        · exact List.getLast?_eq_some_getLast hne
      simp only [OpenBlock.close, Owner.node, Owner.covers, blockOver, Node.spanning, hcovered,
        hbody]
  | rule start prelude =>
      rcases hleads.head? (inner ++ [last]) with ⟨first, hfirst, hstart⟩
      have hcovered : Location.ofRun source ((front ++ brace :: inner) ++ [last]) =
          Location.between source start last.stop := by
        rw [← hstart]
        apply Location.ofRun_of_ends
        · rw [List.append_assoc, List.cons_append]
          exact hfirst
        · exact List.getLast?_concat
      simp only [OpenBlock.close, Owner.node, Owner.covers, blockOver, Node.spanning, hcovered,
        hbody]

/-! ## What has been read -/

/-- What has been read of a source: items outside every block, and within each open block. -/
inductive HasRead (source : SourceName) : List Token -> State -> Prop
  | top {run : List Token} {children : List Node}
      (hitems : Items source false .sheet run children.reverse) :
      HasRead source run ⟨children, []⟩
  | inside {before front inner : List Token} {children : List Node} {block : OpenBlock}
      {outer : List OpenBlock} (houter : HasRead source before ⟨children, outer⟩)
      (hleads : Leads source block.owner block.scope front block.brace)
      (hitems : Items source false block.scope inner block.children.reverse) :
      HasRead source (before ++ (front ++ block.brace :: inner)) ⟨children, block :: outer⟩

namespace HasRead

variable {read run : List Token} {state after : State} {node : Node} {token : Token}

theorem add (h : HasRead source read state) (hitem : Items source false state.scope run [node]) :
    HasRead source (read ++ run) (state.add node) := by
  cases h with
  | top hitems =>
      apply top
      rw [List.reverse_cons]
      exact hitems.append hitem
  | @inside before front inner children block outer houter hleads hitems =>
      have hchildren : Items source false block.scope (inner ++ run)
          (node :: block.children).reverse := by
        rw [List.reverse_cons]
        exact hitems.append hitem
      rw [List.append_assoc, List.append_assoc, List.cons_append]
      exact @inside source _ _ _ _ { block with children := node :: block.children } _ houter
        hleads hchildren

theorem skip (h : HasRead source read state)
    (hskips : state.scope.skips token.kind = true) : HasRead source (read ++ [token]) state := by
  have hgap : Items source false state.scope [token] [] := Items.skip hskips (Items.nil _ _)
  cases h with
  | top hitems =>
      apply top
      have hmore := hitems.append hgap
      rw [List.append_nil] at hmore
      exact hmore
  | inside houter hleads hitems =>
      rw [List.append_assoc, List.append_assoc, List.cons_append]
      apply inside houter hleads
      have hmore := hitems.append hgap
      rw [List.append_nil] at hmore
      exact hmore

theorem push {owner : Owner} {scope : Scope} {front : List Token} {brace : Token}
    (h : HasRead source read state) (hleads : Leads source owner scope front brace) :
    HasRead source (read ++ (front ++ [brace])) (state.push ⟨owner, brace, scope, []⟩) :=
  @inside source _ _ _ _ ⟨owner, brace, scope, []⟩ _ h hleads (Items.nil false scope)

theorem close {block : OpenBlock} {outer : List OpenBlock} (h : HasRead source read state)
    (hkind : token.kind = .rightBrace) (hblocks : state.blocks = block :: outer) :
    HasRead source (read ++ [token])
      (State.add ⟨state.children, outer⟩ (block.close source token.stop token.stop)) := by
  cases h with
  | top hitems => cases hblocks
  | @inside before front inner children block outer houter hleads hitems =>
      cases hblocks
      rw [List.append_assoc]
      apply houter.add
      rw [close_closed hleads]
      have hitem := Items.closed hleads hkind hitems
        (Items.nil false (State.scope ⟨children, outer⟩))
      rw [List.append_nil] at hitem
      exact hitem

/-- The end of the source closes what is open. -/
theorem closeAll {children : List Node} {inner : Option Node} {blocks : List OpenBlock}
    {last : Token} (h : HasRead source read ⟨children, blocks⟩) (hlast : last.kind = .eof)
    (hinner : Items source true (State.scope ⟨children, blocks⟩) (run ++ [last]) inner.toList) :
    Items source true .sheet (read ++ (run ++ [last]))
      (Sheet.closeAll source last.stop (stopOf (trim (read ++ run))) children inner
        blocks).reverse := by
  have htail : forall (inner : Option Node) (nodes : List Node),
      (inner.toList ++ nodes).reverse = nodes.reverse ++ inner.toList := by
    intro inner nodes
    cases inner <;> simp
  generalize hstate : State.mk children blocks = state at h
  induction h generalizing blocks inner run with
  | top hitems =>
      cases hstate
      rw [Sheet.closeAll, htail]
      exact hitems.append hinner
  | @inside before front within children' block outer houter hleads hitems ih =>
      cases hstate
      have hchildren := hitems.append hinner
      rw [← htail, ← List.append_assoc] at hchildren
      have hitem : Items source true (State.scope ⟨children, outer⟩)
          (((front ++ block.brace :: (within ++ run)) ++ [last]))
          (Option.toList (some ({ block with children := inner.toList ++ block.children }.close
            source last.stop (stopOf (trim (before ++ (front ++ block.brace ::
              (within ++ run)))))))) := by
        have hclose := @close_unclosed source
          { block with children := inner.toList ++ block.children } before front (within ++ run)
          last hleads
        rw [hclose]
        exact Items.unclosed hleads hlast hchildren
      have hrest := ih hitem rfl
      rw [Sheet.closeAll]
      simpa only [List.append_assoc, List.cons_append] using hrest

end HasRead

/-! ## Steps -/

/-- What a step has read: a run without the end of the source, behind what was read before. -/
structure Advance (source : SourceName) (read run : List Token) (after : State) : Prop where
  inside : forall token, token ∈ run -> token.kind ≠ .eof
  hasRead : HasRead source (read ++ run) after

section Steps

variable {read rest more : List Token} {state after : State} {token : Token}

theorem advance_singleton (heof : token.kind ≠ .eof)
    (h : HasRead source (read ++ [token]) after) (rest : List Token) :
    exists run, token :: rest = run ++ rest ∧ Advance source read run after :=
  ⟨[token], rfl, List.forall_mem_singleton.mpr heof, h⟩

theorem HasRead.add_bareAtRule {name : String} {prelude : Option Node} {run : List Token}
    (h : HasRead source read state) (back : List Token) (hkind : token.kind = .atKeyword name)
    (hprelude : forall node, node ∈ prelude -> node.Over source .value (trim run)) :
    HasRead source (read ++ (token :: run ++ back))
      (state.add (bareAtRule source name prelude (token :: run ++ back))) := by
  have htrivia : token.isTrivia = false := by
    rw [Token.isTrivia, hkind]
    rfl
  have hne : trim (token :: run ++ back) ≠ [] := (begins_cons htrivia (run ++ back)).trim_ne_nil
  apply h.add
  apply Items.of_trim hne
  have hfits : (Construct.atRule name prelude none : Construct Node).Fits .value
      (trim (token :: run ++ back)) :=
    fun hverbatim => absurd hverbatim Bool.false_ne_true
  apply Node.Over.spanning hne hfits
  cases prelude with
  | none => exact Placed.nil _ _
  | some node =>
      exact ((hprelude node rfl).under .atRule).placed.mono (trim_isInfix_trim [token] run back)

theorem item_leaf {construct : Construct Node} (hspelled : token.IsSpelled)
    (h : leaf? token.kind = some construct) (scope : Scope) :
    Items source false scope [token] [Node.ofToken source token construct] := by
  have hitem : forall {construct : Construct Node} {spelling : String},
      token.kind.spelling? = some spelling -> construct.type.isLeaf = true ->
        Node.renderConstruct construct = spelling ->
          Items source false scope [token] [Node.ofToken source token construct] :=
    fun hkind hleaf hrender => Items.item (List.cons_ne_nil _ _)
      (Node.Over.ofSpelling hspelled hkind hleaf hrender) (Items.nil false scope)
  unfold leaf? at h
  split at h
  · cases h
    exact hitem (by rw [‹token.kind = _›]; rfl) rfl (by rw [Node.renderConstruct])
  · cases h
    exact hitem (by rw [‹token.kind = _›]; rfl) rfl (by rw [Node.renderConstruct])
  · cases h
    exact hitem (by rw [‹token.kind = _›]; rfl) rfl (by rw [Node.renderConstruct])
  · cases h

theorem placed_prelude? {name : String} {run : List Token} (hspelled : Run.IsSpelled run) :
    Placed source .value run (Media.prelude? source name run).toList := by
  cases hprelude : Media.prelude? source name run with
  | none => exact Placed.nil _ _
  | some node => exact (Media.over_prelude? hspelled hprelude).placed.mono (isInfix_trim run)

/-- The first token of a rule stands in front of its brace, or is its brace. -/
theorem head?_of_append_cons {front : List Token} {brace : Token}
    (h : token :: rest = front ++ brace :: more) : (front ++ [brace]).head? = some token := by
  rw [List.append_cons] at h
  rw [← List.head?_append_of_ne_nil _ (by simp : front ++ [brace] ≠ []), ← h]
  rfl

theorem advance_step (h : HasRead source read state) (heof : token.kind ≠ .eof)
    (hspelled : Run.IsSpelled (token :: rest))
    (hstep : step source state token rest = .ok (after, more)) :
    exists run, token :: rest = run ++ more ∧ Advance source read run after := by
  have hfirst := hspelled token List.mem_cons_self
  have hbody : forall front back : List Token, rest = front ++ back -> Run.IsSpelled front := by
    rintro front back rfl
    exact hspelled.sublist ((List.sublist_append_left _ _).cons token)
  cases steps_of_step hstep with
  | skip hskips => exact advance_singleton heof (h.skip hskips) rest
  | leaf hscope hleaf => exact advance_singleton heof (h.add (item_leaf hfirst hleaf _)) rest
  | close hkind hblocks => exact advance_singleton heof (h.close hkind hblocks) rest
  | @atRule name run more brace hkind htake hbrace =>
      rcases append_of_takeUntil htake with ⟨rfl, hinside⟩
      refine ⟨token :: run ++ [brace], by simp, ?_, ?_⟩
      · rw [List.forall_mem_append, List.forall_mem_cons, List.forall_mem_singleton, hbrace]
        exact ⟨⟨heof, hinside⟩, TokenKind.noConfusion⟩
      · exact h.push (Leads.atRule hkind hbrace (placed_prelude? (hbody run _ rfl)))
  | @bareAtRule name run more mark hkind htake hmark =>
      rcases append_of_takeUntil htake with ⟨rfl, hinside⟩
      refine ⟨token :: run ++ mark.toList, by simp, ?_, ?_⟩
      · rw [List.forall_mem_append, List.forall_mem_cons]
        refine ⟨⟨heof, hinside⟩, fun other hother => ?_⟩
        rw [hmark other (Option.mem_toList.mp hother)]
        exact TokenKind.noConfusion
      · exact h.add_bareAtRule mark.toList hkind fun _ => Media.over_prelude? (hbody run _ rfl)
  | @rule run more brace hrule hcdo hcdc hscope htake hbrace =>
      rcases append_of_takeUntil htake with ⟨happend, hinside⟩
      refine ⟨run ++ [brace], by rw [happend, List.append_cons], ?_, ?_⟩
      · rw [List.forall_mem_append, List.forall_mem_singleton, hbrace]
        exact ⟨hinside, TokenKind.noConfusion⟩
      · refine h.push (Leads.rule (head?_of_append_cons happend) hbrace ?_)
        rw [happend] at hspelled
        have hrun : Run.IsSpelled run := hspelled.sublist (List.sublist_append_left _ _)
        exact (Selector.over_prelude hrun).placed.mono (isInfix_trim run)
  | @declaration run more node hdeclaration hscope htake hnode =>
      rcases append_of_takeUntil htake with ⟨rfl, hinside⟩
      have hrun : Run.IsSpelled (token :: run) := hspelled.sublist (List.sublist_append_left _ more)
      rcases Declaration.over_parse hrun hnode with ⟨hne, hover⟩
      exact ⟨token :: run, rfl, List.forall_mem_cons.mpr ⟨heof, hinside⟩,
        h.add (Items.of_trim hne hover)⟩

end Steps

/-! ## The whole source -/

/-- What has not read the end of the source leaves it to what comes behind. -/
theorem exists_behind {body run more : List Token} {last : Token}
    (h : body ++ [last] = run ++ more) (hlast : last.kind = .eof)
    (hrun : forall token, token ∈ run -> token.kind ≠ .eof) :
    exists behind, body = run ++ behind ∧ more = behind ++ [last] := by
  rcases List.eq_nil_or_concat more with rfl | ⟨behind, other, rfl⟩
  · rw [List.append_nil] at h
    exact absurd hlast (hrun last (h ▸ List.mem_append_right _ List.mem_cons_self))
  · rw [List.concat_eq_append, ← List.append_assoc] at h
    rcases List.append_inj' h rfl with ⟨hbody, hother⟩
    exact ⟨behind, hbody, by rw [List.concat_eq_append, hother]⟩

theorem hasRead_readItems {read body : List Token} {state after : State} {last : Token}
    (h : HasRead source read state) (hlast : last.kind = .eof)
    (hbody : forall token, token ∈ body -> token.kind ≠ .eof)
    (hspelled : Run.IsSpelled (body ++ [last]))
    (hitems : readItems source state (body ++ [last]) = .ok after) :
    HasRead source (read ++ body) after := by
  generalize htokens : body ++ [last] = tokens at hspelled hitems
  fun_induction readItems source state tokens generalizing read body with
  | case1 state => exact absurd htokens (by simp)
  | case2 state token rest heof =>
      cases hitems
      cases body with
      | nil =>
          rw [List.append_nil]
          exact h
      | cons first body =>
          rw [List.cons_append, List.cons.injEq] at htokens
          rw [← htokens.left] at heof
          exact absurd heof (hbody first List.mem_cons_self)
  | case3 => cases hitems
  | case4 state token rest heof next more hstep ih =>
      rcases advance_step h heof hspelled hstep with ⟨run, hrun, hinner, hread⟩
      rw [hrun] at htokens hspelled
      rcases exists_behind htokens hlast hinner with ⟨behind, rfl, hmore⟩
      rw [← List.append_assoc]
      apply ih hread _ hmore.symm (hspelled.sublist (List.sublist_append_right _ _)) hitems
      intro token htoken
      exact hbody token (List.mem_append_right _ htoken)

/-- The tokens of a source are read as items, the last of which the end of the source may close. -/
theorem items_ofTokens {body : List Token} {last : Token} {tree : Node} (hlast : last.kind = .eof)
    (hbody : forall token, token ∈ body -> token.kind ≠ .eof)
    (hspelled : Run.IsSpelled (body ++ [last]))
    (h : ofTokens source (body ++ [last]) = .ok tree) :
    exists nodes, tree = Node.spanning source (body ++ [last]) (.styleSheet nodes) ∧
      Items source true .sheet (body ++ [last]) nodes := by
  have hfilter : (body ++ [last]).filter (·.kind != .eof) = body := by
    rw [List.filter_append, List.filter_cons_of_neg (by simp [hlast]), List.filter_nil,
      List.append_nil]
    exact List.filter_eq_self.mpr fun token htoken => by simpa using hbody token htoken
  have hstop : stopOf (body ++ [last]) = last.stop := by
    rw [stopOf, List.getLast?_concat]
  unfold ofTokens at h
  split at h
  · cases h
  · rename_i state hitems
    cases h
    have hread := hasRead_readItems (HasRead.top (Items.nil false .sheet)) hlast hbody hspelled
      hitems
    have hend : Items source true (State.scope state) ([] ++ [last]) (none : Option Node).toList :=
      Items.skip (by rw [hlast]; rfl) (Items.nil _ _)
    have hall := HasRead.closeAll hread hlast hend
    refine ⟨_, rfl, ?_⟩
    simp only [hfilter, hstop]
    simpa only [List.nil_append, List.append_nil] using hall

end Sheet
end Stylesheet
