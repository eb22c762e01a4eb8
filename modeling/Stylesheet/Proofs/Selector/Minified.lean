import Stylesheet.Proofs.Moved.Readers
import Stylesheet.Proofs.Node.Preorder
import Stylesheet.Proofs.Selector.Kept
import Stylesheet.Proofs.Token.Parts
import Stylesheet.Proofs.Unlocated

/-!
# The tokens of a minified selector

The text of a list of selectors without positions has the tokens it was read from, but for
whitespace and comments, just where no token joins what is written behind it and each closer was
of the shape that its opener asks for.
-/

namespace Stylesheet

open Character

namespace Node

/-- No position stands within a node. -/
def LacksPositions (node : Node) : Prop :=
  forall inner, inner ∈ node.preorder -> inner.type ≠ .nth

instance (node : Node) : Decidable node.LacksPositions :=
  inferInstanceAs (Decidable (forall inner, inner ∈ node.preorder -> inner.type ≠ .nth))

theorem LacksPositions.child {node child : Node} (h : node.LacksPositions)
    (hchild : child ∈ node.construct.children) : child.LacksPositions :=
  fun inner hinner => h inner (preorder_subset_of_mem_children hchild hinner)

theorem preorder_erase (node : Node) : node.erase.preorder = node.preorder.map erase := by
  induction node using Node.induction with
  | step node ih =>
      rw [preorder_eq, preorder_eq, construct_erase, Construct.children_map, List.map_cons,
        List.flatMap_map, List.map_flatMap]
      exact congrArg _ (List.flatMap_congr ih)

theorem LacksPositions.erase {node : Node} (h : node.LacksPositions) :
    node.erase.LacksPositions := by
  intro inner hinner
  rw [preorder_erase] at hinner
  rcases List.mem_map.mp hinner with ⟨original, horiginal, rfl⟩
  rw [(forgets_erase none).type]
  exact h original horiginal

end Node

namespace Selector

open Token Run Node

/-- A text that begins with what may stand behind a selector. -/
def StartsEdge (text : List Char) : Prop :=
  forall b, b ∈ text.head? -> b = ',' ∨ b = ')'

theorem startsMark_of_startsEdge {text : List Char} (h : StartsEdge text) : StartsMark text := by
  intro b hb
  rcases h b hb with rfl | rfl <;> decide

/-! ## The parts of a selector -/

/-- The node of a descendant combinator. -/
def descendant (gap : Option Token) : List Node :=
  addDescendant none gap []

/--
Parts that are written for a run behind others.  They begin with a mark behind a simple selector,
unless the run itself has a name there, and with no number behind a combinator.
-/
structure IsKeptRest (earlier : List Node) (gap : Option Token) (run : List Token)
    (later : List Node) : Prop where
  kept : Kept StartsEdge run (writtenAll later)
  meets : endsSimple earlier = true -> forall behind, StartsEdge behind ->
    StartsMark ((Run.text (writtenAll later)).toList ++ behind) ∨
      gap = none ∧ startsName run = true
  begins : endsSimple earlier = false -> gap = none -> forall behind,
    BeginsOperand ((Run.text (writtenAll later)).toList ++ behind)

variable {earlier later : List Node} {gap : Option Token} {run rest : List Token}

theorem isKeptRest_done (hends : endsSimple earlier = true) :
    IsKeptRest earlier gap [] [] where
  kept := Kept.nil
  meets := fun _ behind hbehind => Or.inl (startsMark_of_startsEdge hbehind)
  begins := by
    intro hends'
    rw [hends] at hends'
    cases hends'

/-- Trivia is passed, and may have become a descendant combinator. -/
theorem IsKeptRest.trivia {token : Token} {stands : Bool}
    (h : IsKeptRest earlier (if endsSimple earlier && stands then some token else gap) run later)
    (htrivia : token.isTrivia = true) (hstands : startsName run = true -> stands = true) :
    IsKeptRest earlier gap (token :: run) later where
  kept := h.kept.trivia htrivia
  meets := by
    intro hends behind hbehind
    rcases h.meets hends behind hbehind with hmark | ⟨hgap, hname⟩
    · exact Or.inl hmark
    -- Trivia between a simple selector and a name is written as a blank.
    · rw [hends, hstands hname, Bool.and_self, if_pos rfl] at hgap
      cases hgap
  begins := by
    intro hends hgap
    refine h.begins hends ?_
    rw [hends, Bool.false_and, if_neg Bool.false_ne_true]
    exact hgap

theorem kept_descendant (gap : Option Token) :
    Kept BeginsOperand [] (writtenAll (descendant gap)) := by
  cases gap with
  | none => exact Kept.nil
  | some token => exact kept_blank

theorem startsMark_descendant (token : Token) (text : List Char) :
    StartsMark ((Run.text (writtenAll (descendant (some token)))).toList ++ text) := by
  have hblank : writtenAll (descendant (some token)) = [blank] := rfl
  rw [hblank, toList_text_singleton]
  exact startsMark_cons (c := ' ') (by decide) text

/-- A simple selector is kept in front of parts that are kept. -/
theorem IsKeptRest.operand {node : Node} {front : List Token} (hnode : IsKept front rest node)
    (hsimple : node.isCombinator = false) {before : List Node}
    (h : IsKeptRest (node :: before) none rest later) :
    IsKeptRest earlier gap (front ++ rest) (descendant gap ++ node :: later) := by
  have hends : endsSimple (node :: before) = true := by
    rw [endsSimple, hsimple]
    rfl
  have hkept : Kept StartsEdge (front ++ rest) (node.written ++ writtenAll later) := by
    refine hnode.kept.append h.kept ?_
    intro behind hbehind
    exact (h.meets hends behind hbehind).imp id And.right
  have htext : forall behind, (Run.text (writtenAll (descendant gap ++ node :: later))).toList ++
      behind = (Run.text (writtenAll (descendant gap))).toList ++
        ((Run.text node.written).toList ++ ((Run.text (writtenAll later)).toList ++ behind)) := by
    intro behind
    rw [writtenAll_append, writtenAll, text_append, text_append, String.toList_append,
      String.toList_append, List.append_assoc, List.append_assoc]
  refine ⟨?_, ?_, ?_⟩
  · rw [writtenAll_append, writtenAll]
    refine (kept_descendant gap).append hkept ?_
    intro behind _
    rw [text_append, String.toList_append, List.append_assoc]
    exact hnode.begins _
  · intro _ behind _
    rw [htext]
    cases gap with
    | none => exact (hnode.meets _).imp id fun hname => ⟨rfl, hname⟩
    | some token => exact Or.inl (startsMark_descendant token _)
  · rintro _ rfl behind
    rw [htext]
    exact hnode.begins _

theorem exists_delim_of_combinator? {token : Token} {name : String}
    (h : combinator? token = some name) :
    exists c, token.kind = .delim c ∧ c ∈ ['>', '+', '~'] ∧
      writtenConstruct (.combinator name) = [ofKind (.delim c)] := by
  rcases combinator?_eq_some_iff.mp h with ⟨c, hc, hkind, rfl⟩
  refine ⟨c, hkind, hc, ?_⟩
  simp only [List.mem_cons, List.not_mem_nil, or_false] at hc
  rcases hc with rfl | rfl | rfl <;> rfl

theorem kept_combinator {c : Char} (h : c ∈ ['>', '+', '~']) :
    Kept BeginsOperand [ofKind (.delim c)] [ofKind (.delim c)] := by
  refine Kept.singleton fun _ behind hbegins => ReadsBefore.stands (readsBefore_delim ?_)
  simp only [List.mem_cons, List.not_mem_nil, or_false] at h
  rcases h with rfl | rfl | rfl
  · exact Lexeme.read_delim (by decide) behind
  · exact Lexeme.read_sign (Or.inl rfl) hbegins.unsigned
  · exact Lexeme.read_delim (by decide) behind

/-- A combinator is kept in front of parts that are kept. -/
theorem IsKeptRest.combinator {token : Token} {name : String} (hrun : Seamless (token :: rest))
    (hname : combinator? token = some name)
    (h : IsKeptRest (ofConstruct (.combinator name) :: earlier) none rest later) :
    IsKeptRest earlier gap (token :: rest) (ofConstruct (.combinator name) :: later) := by
  rcases exists_delim_of_combinator? hname with ⟨c, hkind, hc, hwritten⟩
  have htoken : ofKind (.delim c) = token := hrun.ofKind_eq List.mem_cons_self hkind rfl
  have hplain : c ∈ marks ∧ (isDigit c || c == '.' || isSpace c) = false := by
    simp only [List.mem_cons, List.not_mem_nil, or_false] at hc
    rcases hc with rfl | rfl | rfl <;> decide
  have htext : forall behind,
      (Run.text (writtenAll (ofConstruct (.combinator name) :: later))).toList ++ behind =
        c :: ((Run.text (writtenAll later)).toList ++ behind) := by
    intro behind
    have hmark : (ofKind (.delim c)).text.toList = [c] := String.toList_singleton c
    rw [writtenAll, written_ofConstruct, hwritten, text_append, String.toList_append,
      toList_text_singleton, hmark]
    rfl
  refine ⟨?_, ?_, ?_⟩
  · rw [writtenAll, written_ofConstruct, hwritten, ← htoken]
    exact (kept_combinator hc).append h.kept fun behind _ => h.begins rfl rfl behind
  · intro _ behind _
    rw [htext]
    exact Or.inl (startsMark_cons hplain.1 _)
  · intro _ _ behind
    rw [htext]
    exact beginsOperand_cons hplain.2 _

/-! ## Lists of selectors -/

theorem kept_commas {selectors : List (List Token × List Node)} (hrun : Seamless run)
    {depth : Nat} (hparts : splitTopLevel (· == .comma) depth run = selectors.map Prod.fst)
    (h : forall selector, selector ∈ selectors -> Seamless selector.1 ->
      Kept StartsEdge selector.1 (writtenAll selector.2)) :
    Kept StartsEdge run
      (writtenCommas (selectors.map fun selector => ofPart none selector.1 selector.2)) := by
  induction selectors generalizing run depth with
  | nil => exact absurd hparts (splitTopLevel_ne_nil _ _ _)
  | cons selector selectors ih =>
      rcases selector with ⟨part, nodes⟩
      have hpart : (ofPart none part nodes).written = writtenAll nodes := by
        rw [ofPart, spanning_none, written_ofConstruct, writtenConstruct]
      rcases splitTopLevel_eq_cons hparts with
        ⟨_, ⟨rfl, hnil⟩ | ⟨mark, rest, rfl, hmark, _, hrest⟩⟩
      · rw [List.map_eq_nil_iff] at hnil
        subst hnil
        rw [List.map_cons, List.map_nil, writtenCommas, hpart]
        exact h _ List.mem_cons_self hrun
      · have hkind : mark.kind = .comma := beq_iff_eq.mp hmark.left
        have hcomma : ofKind .comma = mark :=
          hrun.ofKind_eq (List.mem_append_right _ List.mem_cons_self) hkind rfl
        have hfirst := h _ List.mem_cons_self (hrun.front_of_mark (by rw [hkind]; rfl))
        have hlater := ih hrun.back.tail hrest.symm
          fun other hother => h other (List.mem_cons_of_mem _ hother)
        cases selectors with
        | nil => exact absurd hrest.symm (splitTopLevel_ne_nil _ _ _)
        | cons next selectors =>
            rw [List.map_cons, List.map_cons, writtenCommas_cons_cons, hpart]
            rw [List.map_cons] at hlater
            have hmark : Kept Anything [mark] [ofKind .comma] :=
              hcomma ▸ kept_punctuation (c := ',') rfl
            refine hfirst.append (hmark.append hlater fun _ _ => trivial) ?_
            intro behind _
            rw [text_cons, String.toList_append]
            rintro _ ⟨⟩
            exact Or.inl rfl

/-! ## Whole selectors -/

/--
What the readers build is written with the tokens it was read from.  The parts read so far are in
front of all parts, and only those behind them are written for the run.
-/
def ReadingKept : Reading -> Prop
  | .list run node => Seamless run -> node.LacksPositions -> Kept StartsEdge run node.written
  | .parts earlier gap run nodes => exists later, nodes = earlier.reverse ++ later ∧
      (Seamless run -> (forall node, node ∈ later -> node.LacksPositions) ->
        IsKeptRest earlier gap run later)
  | .argument name run node => Seamless run -> node.LacksPositions ->
      IsKeptArgument name run node

theorem reverse_operand (node : Node) (later : List Node) :
    (node :: addDescendant none gap earlier).reverse ++ later =
      earlier.reverse ++ (descendant gap ++ node :: later) := by
  rw [List.reverse_cons, reverse_addDescendant]
  simp [descendant]

/-- A simple selector that is kept is kept in front of what is read behind it. -/
theorem readingKept_operand {node : Node} {nodes : List Node} (hsimple : node.isCombinator = false)
    (hnode : Seamless run -> node.LacksPositions ->
      exists front, run = front ++ rest ∧ IsKept front rest node)
    (hrest : ReadingKept (.parts (node :: addDescendant none gap earlier) none rest nodes)) :
    ReadingKept (.parts earlier gap run nodes) := by
  rcases hrest with ⟨later, rfl, hkept⟩
  refine ⟨_, reverse_operand node later, fun hrun hlacks => ?_⟩
  rcases hnode hrun (hlacks node (List.mem_append_right _ List.mem_cons_self)) with
    ⟨front, rfl, hfront⟩
  have hlater : forall node, node ∈ later -> node.LacksPositions :=
    fun node hmem => hlacks node (List.mem_append_right _ (List.mem_cons_of_mem _ hmem))
  exact (hkept hrun.back hlater).operand hfront hsimple

theorem mem_children_construct (pseudo : Pseudo) (child : Node) :
    child ∈ (pseudo.construct (some [child])).children := by
  unfold Pseudo.construct
  split <;> exact List.mem_singleton_self child

theorem not_sameWord_url {name : String} (h : takesSelectors name = true ∨ takesWord name = true) :
    sameWord name "url" = false := by
  rw [← Bool.not_eq_true]
  intro hname
  unfold takesSelectors takesWord at h
  rw [beq_iff_eq.mp hname] at h
  exact absurd h (by decide +kernel)

theorem readingKept {reading : Reading} (h : Reads none reading) : ReadingKept reading := by
  induction h with
  | @list _ selectors hparts hselectors ih =>
      intro hrun hlacks
      rw [spanning_none] at hlacks ⊢
      rw [written_ofConstruct, writtenConstruct]
      have hlisted := kept_commas hrun.trim hparts (by
        intro selector hselector hpart
        rcases ih selector hselector with ⟨later, hlater, hkept⟩
        have hnode : (ofPart none selector.1 selector.2).LacksPositions :=
          hlacks.child (List.mem_map_of_mem hselector)
        rw [ofPart, spanning_none, hlater] at hnode
        rw [hlater]
        have hall := hkept hpart.trim fun node hmem => hnode.child hmem
        exact hall.kept.of_significant (significant_trim _).symm)
      exact hlisted.of_significant (significant_trim _).symm
  | done hends => exact ⟨[], (List.append_nil _).symm, fun _ _ => isKeptRest_done hends⟩
  | @whitespace earlier _ _ _ _ hkind _ ih =>
      rcases ih with ⟨later, hlater, hkept⟩
      rw [← Bool.and_true (endsSimple earlier)] at hkept
      refine ⟨later, hlater, fun hrun hlacks => ?_⟩
      exact (hkept hrun.tail hlacks).trivia (by rw [Token.isTrivia, hkind]; rfl) fun _ => rfl
  | comment hkind _ ih =>
      rcases ih with ⟨later, hlater, hkept⟩
      refine ⟨later, hlater, fun hrun hlacks => ?_⟩
      refine (hkept hrun.tail hlacks).trivia ?_ startsType_of_startsName
      rw [Token.isTrivia, hkind]
      rfl
  | bare hkind hpseudo harguments _ ih =>
      rw [spanning_none] at ih
      refine readingKept_operand (isCombinator_construct _ none none) (fun hrun _ => ?_) ih
      exact ⟨_, isKept_bare hrun hkind hpseudo harguments⟩
  | @called _ _ _ _ _ _ pseudo child hkind hpseudo harguments _ _ ihchild ih =>
      rw [spanning_none] at ih
      refine readingKept_operand (isCombinator_construct pseudo _ none) (fun hrun hlacks => ?_) ih
      have hchild := hlacks.child (mem_children_construct pseudo child)
      exact ⟨_, isKept_called hrun hkind hpseudo harguments fun hinner => ihchild hinner hchild⟩
  | @combinator _ _ _ _ name _ hname _ _ ih =>
      rw [ofToken_none] at ih
      rcases ih with ⟨later, rfl, hkept⟩
      refine ⟨ofConstruct (.combinator name) :: later, by simp, fun hrun hlacks => ?_⟩
      have hlater := fun node hmem => hlacks node (List.mem_cons_of_mem _ hmem)
      exact (hkept hrun.tail hlater).combinator hrun hname
  | simple hsimple _ ih =>
      refine readingKept_operand (isOperand_simple? hsimple).simple (fun hrun _ => ?_) ih
      exact isKept_simple? hrun hsimple
  | selectors htakes _ ih =>
      intro hrun hlacks
      refine ⟨(ih hrun hlacks).mono ?_, ?_⟩
      · rintro _ ⟨more, rfl⟩ _ ⟨⟩
        exact Or.inr rfl
      · intro hname
        rw [not_sameWord_url (Or.inl htakes)] at hname
        cases hname
  | position _ _ _ hnth =>
      intro _ hlacks
      rcases Option.map_eq_some_iff.mp hnth with ⟨construct, _, rfl⟩
      exact absurd rfl (hlacks _ (self_mem_preorder _))
  | positionOf _ _ _ _ hnth =>
      intro _ hlacks
      rcases Option.map_eq_some_iff.mp hnth with ⟨construct, _, rfl⟩
      exact absurd rfl (hlacks _ (self_mem_preorder _))
  | word _ _ htakes hword =>
      intro hrun _
      rcases word?_eq_some hword with ⟨word, name, rfl, hkind, rfl⟩
      rw [ofToken_none]
      have hwritten : (ofConstruct (.identifier name)).written = [word] :=
        congrArg (fun token => [token]) (hrun.ofKind_eq List.mem_cons_self hkind rfl)
      refine ⟨?_, fun _ => hwritten⟩
      rw [hwritten]
      refine (kept_before_mark hrun.readsBefore (by rw [hkind]; rfl)).mono ?_
      rintro _ ⟨more, rfl⟩
      exact startsMark_cons (by decide) more
  -- Raw text keeps its trivia, so that it is the run itself in front of another text.
  | @raw _ run _ =>
      intro hrun _
      have hwritten : (rawRun none run).written = run := by
        rw [rawRun, spanning_none, written_ofConstruct, writtenConstruct, ofText_of_seamless hrun]
      refine ⟨?_, fun _ => hwritten⟩
      rw [hwritten]
      refine Kept.of_stands ?_
      rintro _ ⟨more, rfl⟩
      exact hrun.readsIn.stands_paren more

/-! ## Preludes of a source -/

/-- A run that a source is cut into, up to a mark, is read again by itself. -/
theorem seamless_takeUntil {text : String} {tokens : List Token} {stops : TokenKind -> Bool}
    (htokens : tokenize text = .ok tokens) (hrest : rest <:+ tokens)
    (hstops : forall kind, stops kind = true -> isMark kind = true) (depth : Nat) :
    Seamless (Run.moved (fun _ => .start) (takeUntil stops depth rest).1) := by
  rcases (scan_of_scanFrom htokens).lexes with ⟨body, last, rfl, hlast, _, hlexes⟩
  rcases List.suffix_concat_iff.mp hrest with rfl | ⟨front, rfl, hfront⟩
  · exact Seamless.nil
  · have hseamless : Seamless (Run.moved (fun _ => .start) front) :=
      (seamless_of_lexes hlexes).of_suffix (hfront.map _)
    have htaken : Seamless (takeUntil stops depth (Run.moved (fun _ => .start) front)).1 :=
      hseamless.takeUntil hstops
    rw [takeUntil_moved] at htaken
    have hkind : last.kind = .eof := congrArg Token.kind hlast
    rw [takeUntil_concat hkind]
    exact htaken

theorem isMark_of_endsPrelude {kind : TokenKind} (h : Sheet.endsPrelude kind = true) :
    isMark kind = true := by
  unfold Sheet.endsPrelude at h
  split at h <;> first | rfl | cases h

theorem kept_prelude (hrun : Seamless run) (hlist : (prelude none run).type = .selectorList)
    (hlacks : (prelude none run).LacksPositions) :
    Kept StartsEdge run (prelude none run).written := by
  unfold prelude at hlist hlacks ⊢
  cases hmodelled : list? none (Run.trim run) with
  | none =>
      rw [hmodelled, Option.getD_none, rawRun, spanning_none] at hlist
      cases hlist
  | some node =>
      rw [hmodelled] at hlacks
      have hkept := readingKept ((reads none).1 _ node hmodelled) hrun.trim hlacks
      exact hkept.of_significant (significant_trim run).symm

/--
The text of a list of selectors has the tokens of its prelude, but for whitespace and comments,
just where no token joins what is written behind it and each closer has the shape it is given.
-/
theorem isKeptIn_prelude_iff {text : String} {source : SourceName} {tokens : List Token}
    (htokens : tokenize text = .ok tokens) (hrest : rest <:+ tokens)
    (hrun : (takeUntil Sheet.endsPrelude 0 rest).1 = run)
    (hlist : (prelude source run).type = .selectorList)
    (hlacks : (prelude source run).LacksPositions) :
    IsKeptIn run (prelude source run).render <->
      Unjoined [] (prelude none run).written ∧
        closers (prelude none run).written = closers run := by
  -- Places do not matter, so the run is taken to stand at the start of a source.
  have hmoved := prelude_moved (fun _ => .start) (forgets_erase source) run
  have hplain : prelude none run = (prelude source run).erase := by
    have hsame := prelude_moved id (forgets_erase source) run
    rwa [Run.moved_id] at hsame
  have hseamless := seamless_takeUntil htokens hrest (fun _ => isMark_of_endsPrelude) 0
  rw [hrun] at hseamless
  have hkept := kept_prelude hseamless
    (by rw [hmoved, (forgets_erase source).type]; exact hlist) (hmoved ▸ hlacks.erase)
  rw [hmoved] at hkept
  rw [← render_erase, ← text_written, hplain]
  have hstands := hkept.stands [] (by rintro _ ⟨⟩)
  have hiff := hstands.isKeptIn_iff hseamless.readsIn.exists_readsBefore hkept.keeps
  have hcontents : contents (Run.moved (fun _ => .start) run) = contents run :=
    contents_map_bare run
  unfold IsKeptIn closers at hiff
  rw [hcontents] at hiff
  exact hiff

theorem isKeptIn_prelude_child :
    exists tokens run, tokenize "a > b/**/c[d=e i]\x7b\x7d" = .ok tokens ∧
      (takeUntil Sheet.endsPrelude 0 tokens).1 = run ∧
        (prelude none run).type = .selectorList ∧ (prelude none run).LacksPositions ∧
          (prelude none run).render = "a>b c[d=e i]" ∧ IsKeptIn run (prelude none run).render := by
  have htokens : tokenize "a > b/**/c[d=e i]\x7b\x7d" = .ok
      [⟨.ident "a", "a", ⟨1, 1, 0⟩⟩, ⟨.whitespace, " ", ⟨1, 2, 1⟩⟩, ⟨.delim '>', ">", ⟨1, 3, 2⟩⟩,
        ⟨.whitespace, " ", ⟨1, 4, 3⟩⟩, ⟨.ident "b", "b", ⟨1, 5, 4⟩⟩,
        ⟨.comment "", "/**/", ⟨1, 6, 5⟩⟩, ⟨.ident "c", "c", ⟨1, 10, 9⟩⟩,
        ⟨.leftBracket, "[", ⟨1, 11, 10⟩⟩, ⟨.ident "d", "d", ⟨1, 12, 11⟩⟩,
        ⟨.delim '=', "=", ⟨1, 13, 12⟩⟩, ⟨.ident "e", "e", ⟨1, 14, 13⟩⟩,
        ⟨.whitespace, " ", ⟨1, 15, 14⟩⟩, ⟨.ident "i", "i", ⟨1, 16, 15⟩⟩,
        ⟨.rightBracket, "]", ⟨1, 17, 16⟩⟩, ⟨.leftBrace, "\x7b", ⟨1, 18, 17⟩⟩,
        ⟨.rightBrace, "\x7d", ⟨1, 19, 18⟩⟩, ⟨.eof, "", ⟨1, 20, 19⟩⟩] := by
    decide +kernel
  refine ⟨_, _, htokens, rfl, ?_, ?_, ?_,
    (isKeptIn_prelude_iff htokens List.suffix_rfl rfl ?_ ?_).mpr ⟨?_, ?_⟩⟩
  all_goals decide +kernel

/-- Without the space between them a letter and a plus sign before another begin a range. -/
theorem exists_joined_range :
    exists tokens run, tokenize "u + a\x7b\x7d" = .ok tokens ∧
      (takeUntil Sheet.endsPrelude 0 tokens).1 = run ∧
        (prelude none run).type = .selectorList ∧ (prelude none run).LacksPositions ∧
          (prelude none run).render = "u+a" ∧ ¬IsKeptIn run (prelude none run).render := by
  have htokens : tokenize "u + a\x7b\x7d" = .ok
      [⟨.ident "u", "u", ⟨1, 1, 0⟩⟩, ⟨.whitespace, " ", ⟨1, 2, 1⟩⟩, ⟨.delim '+', "+", ⟨1, 3, 2⟩⟩,
        ⟨.whitespace, " ", ⟨1, 4, 3⟩⟩, ⟨.ident "a", "a", ⟨1, 5, 4⟩⟩,
        ⟨.leftBrace, "\x7b", ⟨1, 6, 5⟩⟩, ⟨.rightBrace, "\x7d", ⟨1, 7, 6⟩⟩,
        ⟨.eof, "", ⟨1, 8, 7⟩⟩] := by
    decide +kernel
  have hrange : tokenize "u+a" = .ok
      ([⟨.unicodeRange "u+a", "u+a", ⟨1, 1, 0⟩⟩] ++ [⟨.eof, "", ⟨1, 4, 3⟩⟩]) := by
    decide +kernel
  have hlost : forall {run : List Token} {text : String}, text = "u+a" ->
      contents run ≠ [(.unicodeRange "u+a", "u+a")] -> ¬IsKeptIn run text := by
    rintro run _ rfl hne ⟨tokens, last, hread, _, hcontents⟩
    rw [hrange, Except.ok.injEq] at hread
    rw [← List.append_inj_left' hread rfl] at hcontents
    exact hne hcontents.symm
  refine ⟨_, _, htokens, rfl, ?_, ?_, ?_, hlost ?_ ?_⟩
  all_goals decide +kernel

end Selector
end Stylesheet
