import Stylesheet.Generate
import Stylesheet.Proofs.Canonical.Declaration
import Stylesheet.Proofs.Canonical.Selector
import Stylesheet.Proofs.Reread.Text

/-!
# Canonical stylesheets

Main statement: the text that is generated for a canonical stylesheet is parsed as that stylesheet.
Outside of declarations every statement is read back and closes its groups, by induction over the
statements of its block.
-/

namespace Stylesheet
namespace Canonical

open Character Node Token Run

/-! ## Rules -/

/-- The tokens that a selector begins with. -/
def beginsRule : TokenKind -> Bool
  | .ident _ => true
  | .hash _ => true
  | .delim _ => true
  | _ => false

theorem startsRule_of_beginsRule {token : Token} (h : beginsRule token.kind = true) :
    Sheet.StartsRule token := by
  constructor
  case toBeginsItem => constructor <;> (intros; intro heq; rw [heq] at h; cases h)
  all_goals
    intro heq
    rw [heq] at h
    cases h

theorem Compound.exists_start (compound : Compound) (more : List Node) :
    exists token rest, writtenAll (compound.nodes ++ more) = token :: rest ∧
      beginsRule token.kind = true := by
  rw [writtenAll_append]
  cases compound with
  | typed type marks =>
      rw [Compound.nodes, writtenAll, type.written_node]
      exact ⟨type.token, _, rfl, by cases type <;> rfl⟩
  | marked first marks =>
      cases first with
      | ofClass name => exact ⟨ofMark ".", _, rfl, rfl⟩
      | ofId name => exact ⟨ofKind (.hash name.text), _, rfl, rfl⟩

theorem exists_writtenCommas (node : Node) (nodes : List Node) :
    exists rest, writtenCommas (node :: nodes) = node.written ++ rest := by
  cases nodes with
  | nil => exact ⟨[], (List.append_nil _).symm⟩
  | cons next nodes => exact ⟨_, writtenCommas_cons_cons node next nodes⟩

namespace Ruleset

variable (rule : Ruleset)

theorem exists_start :
    exists token rest, writtenCommas rule.selectors = token :: rest ∧
      beginsRule token.kind = true := by
  rcases exists_writtenCommas rule.first.node (rule.rest.map Chain.node) with ⟨behind, hwritten⟩
  rcases rule.first.first.exists_start (rule.first.rest.flatMap joinedNodes) with
    ⟨token, rest, hstart, hkind⟩
  refine ⟨token, rest ++ behind, ?_, hkind⟩
  change writtenCommas (rule.first.node :: rule.rest.map Chain.node) = _
  rw [hwritten]
  change writtenAll rule.first.nodes ++ behind = _
  rw [Chain.nodes, hstart]
  rfl

/-- The declarations of a rule with the braces around them. -/
def body : List Token :=
  ofKind .leftBrace ::
    (writtenBlock (rule.assignments.map Assignment.node) ++ [ofKind .rightBrace])

theorem written_node : rule.node.written = writtenCommas rule.selectors ++ rule.body := by
  rw [node, written_ofConstruct, writtenConstruct, written_ofConstruct, written_ofConstruct,
    writtenConstruct, writtenConstruct]
  rfl

theorem isRuleFront : Sheet.IsRuleFront (ofConstruct (.selectorList rule.selectors)) := by
  have hlisted : forall node, node ∈ rule.selectors -> node.IsListed := by
    intro node hnode
    rcases List.mem_map.mp hnode with ⟨selector, -, rfl⟩
    exact selector.isListed
  have hwritten : (ofConstruct (.selectorList rule.selectors)).written =
      writtenCommas rule.selectors := by
    rw [written_ofConstruct, writtenConstruct]
  constructor <;> rw [hwritten]
  · exact rule.prelude
  · exact uncut_writtenCommas hlisted
  · exact (closes_writtenCommas hlisted).depthBehind 0
  · rcases rule.exists_start with ⟨token, behind, hstart, hkind⟩
    exact ⟨token, _, by rw [hstart, List.cons_append], startsRule_of_beginsRule hkind⟩

/-- A rule is read back outside of declarations. -/
theorem isReread {outer : Sheet.Scope} (houter : outer ≠ .declarations) :
    Sheet.IsReread outer rule.node := by
  let block : Sheet.OpenBlock :=
    ⟨.rule .start (ofConstruct (.selectorList rule.selectors)), ofKind .leftBrace, .declarations,
      (rule.assignments.map Assignment.node).reverse⟩
  have hnode : block.close none .start .start = rule.node := by
    rw [Sheet.close_none, List.reverse_reverse]
    rfl
  rw [← hnode]
  refine Sheet.isReread_close .start .start ⟨.rule houter rule.isRuleFront, ?_⟩
  intro child hchild
  rcases List.mem_map.mp (List.mem_reverse.mp hchild) with ⟨assignment, -, rfl⟩
  exact Sheet.isReread_declaration assignment.isReread

theorem closesGroups : rule.node.closesGroups = true := by
  refine allCloseGroups_iff.mpr fun node hnode => ?_
  rcases List.mem_map.mp hnode with ⟨assignment, -, rfl⟩
  exact (closesGroups_declaration rfl).mpr assignment.depthBehind_written

end Ruleset

/-! ## Names of at-rules -/

namespace AtName

variable (name : AtName)

theorem not_takesQueries : Media.takesQueries name.text = false := by
  have hmedia := name.notSpecial "media" (by simp [specialRules])
  have hcustom := name.notSpecial "custom-media" (by simp [specialRules])
  rw [Media.takesQueries, hmedia, hcustom]
  rfl

/-- A word begins with no hyphen in lower case either, so that it names no vendor. -/
theorem withoutVendor_eq :
    Sheet.withoutVendor name.text.toLower.toList = name.text.toLower.toList := by
  have hlower : name.text.toLower.toList = name.text.toList.map Char.toLower := String.toList_map
  rcases name.exists_cons with ⟨c, rest, hword, hc, -⟩
  have hne : c.toLower ≠ '-' := by
    intro heq
    unfold Char.toLower at heq
    split at heq
    · rename_i hupper
      have hval := congrArg (fun c => c.val.toNat) heq
      change (c.val + 32).toNat = 45 at hval
      have hlow : 65 ≤ c.val.toNat := hupper.left
      have hhigh : c.val.toNat ≤ 90 := hupper.right
      rw [UInt32.toNat_add] at hval
      change (c.val.toNat + 32) % 4294967296 = 45 at hval
      omega
    · rw [heq] at hc
      exact absurd hc (by decide)
  rw [hlower, hword, List.map_cons]
  unfold Sheet.withoutVendor
  split
  · rename_i heq
    exact absurd (List.cons.inj heq).left hne
  · rename_i heq
    exact absurd (List.cons.inj heq).left hne
  · rfl

theorem not_holdsDeclarations : Sheet.holdsDeclarations name.text = false := by
  have hlower : forall rule, rule ∈ Sheet.declarationRules -> rule.toLower = rule := by
    decide +kernel
  rw [Sheet.holdsDeclarations, name.withoutVendor_eq, String.ofList_toList, ← Bool.not_eq_true,
    List.contains_iff_mem]
  intro hmem
  have hspecial : name.text.toLower ∈ specialRules :=
    List.mem_cons_of_mem _ (List.mem_cons_of_mem _ hmem)
  have hother := name.notSpecial _ hspecial
  rw [sameWord, hlower _ hmem, beq_self_eq_true] at hother
  cases hother

end AtName

/-! ## Preludes -/

/-- The tokens between the name of an at-rule and its block or end. -/
def front (row : Option Row) : List Token :=
  writtenBehind [blank] (row.map Row.prelude)

theorem front_some (row : Row) : front (some row) = blank :: writtenAll row.nodes := by
  rw [front, Option.map_some, writtenBehind, Row.prelude, written_ofConstruct, writtenConstruct]
  rfl

theorem prelude?_front (name : AtName) (row : Option Row) :
    Media.prelude? none name.text (front row) = row.map Row.prelude := by
  cases row with
  | none => rfl
  | some row =>
      have hlist := (Items.row row).isList
      have htrim : trim (blank :: writtenAll row.nodes) = writtenAll row.nodes := hlist.trim_eq
      have hempty : (writtenAll row.nodes).isEmpty = false := by
        rcases row.begins_written with ⟨token, rest, heq, -⟩
        rw [heq]
        rfl
      have hreads : Value.components? none (writtenAll row.nodes) = some row.nodes := hlist.reads
      rw [front_some, Media.prelude?]
      simp only [htrim, hempty, if_neg Bool.false_ne_true, Media.preludeNodes,
        name.not_takesQueries, hreads, Option.getD_some, spanning_none]
      rfl

theorem closes_front (row : Option Row) : Closes 0 (front row) := by
  cases row with
  | none => exact closes_nil
  | some row =>
      have hblank : Closes 0 [blank] := closes_token rfl
      rw [front_some]
      exact hblank.append (Items.row row).isList.closes

theorem isFront (name : AtName) (row : Option Row) :
    Sheet.IsFront name.text (row.map Row.prelude) := by
  refine ⟨prelude?_front name row, ?_⟩
  cases row with
  | none => trivial
  | some row =>
      have hblank : Uncut Sheet.endsPrelude 0 [blank] := uncut_token rfl rfl
      have hfront := front_some row
      rw [front] at hfront
      rw [hfront]
      exact uncut_append.mpr ⟨hblank, (Items.row row).isList.uncut⟩

/-! ## At-rules -/

theorem Statement.written_bare (name : AtName) (row : Option Row) :
    (Statement.bare name row).node.written =
      ofKind (.atKeyword name.text) :: front row ++ [ofKind .semicolon] := by
  rw [Statement.node, written_ofConstruct, writtenConstruct]
  rfl

theorem Statement.not_isDeclaration (statement : Statement) :
    statement.node.isDeclaration = false := by
  cases statement <;> rw [Statement.node] <;> rfl

/-- No semicolon stands between statements. -/
theorem writtenBlock_statements (statements : List Statement) :
    writtenBlock (statementNodes statements) = writtenAll (statementNodes statements) := by
  induction statements with
  | nil => rfl
  | cons statement rest ih =>
      cases rest with
      | nil => exact (List.append_nil _).symm
      | cons next rest =>
          rw [statementNodes, statementNodes, writtenBlock_cons_cons,
            statement.not_isDeclaration, if_neg Bool.false_ne_true, List.append_nil, writtenAll]
          exact congrArg _ ih

theorem Statement.written_nested (name : AtName) (row : Option Row) (block : List Statement) :
    (Statement.nested name row block).node.written =
      ofKind (.atKeyword name.text) :: front row ++
        ofKind .leftBrace :: (writtenAll (statementNodes block) ++ [ofKind .rightBrace]) := by
  rw [Statement.node, written_ofConstruct, writtenConstruct, writtenOr, written_ofConstruct,
    writtenConstruct, writtenBlock_statements]
  rfl

mutual

/-- A statement is read back outside of declarations. -/
theorem Statement.isReread : forall (statement : Statement) {outer : Sheet.Scope},
    outer ≠ .declarations -> Sheet.IsReread outer statement.node
  | .rule rule, _, h => rule.isReread h
  | .bare name row, _, _ => Sheet.isReread_bareAtRule (isFront name row)
  | .nested name row block, outer, _ => by
      let opened : Sheet.OpenBlock :=
        ⟨.atRule (ofKind (.atKeyword name.text)) name.text (row.map Row.prelude), ofKind .leftBrace,
          Sheet.scopeOf name.text, (statementNodes block).reverse⟩
      have hnode : opened.close none .start .start = (Statement.nested name row block).node := by
        rw [Sheet.close_none, List.reverse_reverse, Statement.node]
        rfl
      have hinner : Sheet.scopeOf name.text ≠ .declarations := by
        rw [Sheet.scopeOf, name.not_holdsDeclarations, if_neg Bool.false_ne_true]
        exact Sheet.Scope.noConfusion
      rw [← hnode]
      refine Sheet.isReread_close .start .start ⟨.atRule (isFront name row) ?_, ?_⟩
      · exact (closes_front row).depthBehind 0
      · intro child hchild
        exact isReread_statements block hinner child (List.mem_reverse.mp hchild)

theorem isReread_statements : forall (statements : List Statement) {outer : Sheet.Scope},
    outer ≠ .declarations ->
      forall node, node ∈ statementNodes statements -> Sheet.IsReread outer node
  | [], _, _ => fun _ hnil => (nomatch hnil)
  | statement :: more, _, h =>
      List.forall_mem_cons.mpr ⟨statement.isReread h, isReread_statements more h⟩

end

mutual

theorem Statement.closesGroups : forall statement : Statement, statement.node.closesGroups = true
  | .rule rule => rule.closesGroups
  | .bare _ row => Sheet.closesGroups_bareAtRule.mpr ((closes_front row).depthBehind 0)
  | .nested _ _ block => closesGroups_statements block

theorem closesGroups_statements : forall statements : List Statement,
    allCloseGroups (statementNodes statements) = true
  | [] => rfl
  | statement :: more => by
      rw [statementNodes, allCloseGroups, statement.closesGroups, closesGroups_statements more]
      rfl

end

/-- A canonical stylesheet is read back from its tokens. -/
theorem ofTokens_written (statements : List Statement) {last : Token} (hlast : last.kind = .eof) :
    Sheet.ofTokens none ((sheet statements).written ++ [last]) = .ok (sheet statements) := by
  have hnodes := @isReread_statements statements .sheet Sheet.Scope.noConfusion
  have hgroups := allCloseGroups_iff.mp (closesGroups_statements statements)
  exact Sheet.ofTokens_items hnodes hgroups hlast

/-! ## Reading back from text -/

section Text

variable {behind : List Char}

theorem endsItem_brace (rest : List Token) (behind : List Char) :
    EndsItem ((text (ofKind .leftBrace :: rest)).toList ++ behind) := by
  rw [toList_text_cons]
  exact endsItem_cons (b := '\x7b') (by decide) _

theorem Ruleset.readsIn (rule : Ruleset) (behind : List Char) :
    ReadsIn behind rule.node.written := by
  rw [rule.written_node, readsIn_append, Ruleset.body]
  refine ⟨readsIn_selectors (rule.first :: rule.rest) (endsItem_brace _ behind).endsWord,
    readsBefore_punctuation (c := '\x7b') rfl _, readsIn_append.mpr ⟨readsIn_assignments _ ?_,
      readsIn_singleton (readsBefore_punctuation (c := '\x7d') rfl _)⟩⟩
  exact endsItem_cons (b := '\x7d') (by decide) _

/-- The front of an at-rule is read where its last item is. -/
theorem readsIn_front (name : AtName) (row : Option Row) (h : EndsItem behind) :
    ReadsIn behind (ofKind (.atKeyword name.text) :: front row) := by
  cases row with
  | none => exact readsIn_singleton (name.readsBefore_atKeyword h.endsWord)
  | some row =>
      have hrow := row.readsIn h
      rw [front_some]
      refine ⟨name.readsBefore_atKeyword ?_, readsBefore_blank ?_, hrow⟩
      · rw [toList_text_cons]
        exact endsWord_cons (b := ' ') (by decide) _
      · exact not_isSpace_of_begins hrow row.begins_written

mutual

theorem Statement.readsIn : forall (statement : Statement) (behind : List Char),
    ReadsIn behind statement.node.written
  | .rule rule, behind => rule.readsIn behind
  | .bare name row, behind => by
      have hend : EndsItem (';' :: behind) := endsItem_cons (by decide) behind
      rw [Statement.written_bare, readsIn_append]
      exact ⟨readsIn_front name row hend,
        readsIn_singleton (readsBefore_punctuation (c := ';') rfl behind)⟩
  | .nested name row block, behind => by
      rw [Statement.written_nested, readsIn_append]
      refine ⟨readsIn_front name row (endsItem_brace _ behind),
        readsBefore_punctuation (c := '\x7b') rfl _, readsIn_append.mpr ⟨?_, ?_⟩⟩
      · exact readsIn_statements block _
      · exact readsIn_singleton (readsBefore_punctuation (c := '\x7d') rfl behind)

theorem readsIn_statements : forall (statements : List Statement) (behind : List Char),
    ReadsIn behind (writtenAll (statementNodes statements))
  | [], _ => trivial
  | statement :: rest, behind => by
      rw [statementNodes, writtenAll, readsIn_append]
      exact ⟨statement.readsIn _, readsIn_statements rest behind⟩

end

end Text

/-- What is generated for a canonical stylesheet is parsed as that stylesheet. -/
theorem parse_generate (statements : List Statement) :
    parse (generate (sheet statements)) {} = .ok (sheet statements) := by
  have hreads : ReadsIn [] (sheet statements).written := readsIn_statements statements []
  have hseamless : Seamless ((sheet statements).written.map bare) := by
    refine seamless_of_readsIn hreads.map_bare fun token htoken => ?_
    rcases List.mem_map.mp htoken with ⟨other, -, rfl⟩
    rfl
  rcases exists_parse_text_iff hseamless with ⟨last, hlast, hiff⟩
  rw [generate, ← text_written, hiff]
  exact ofTokens_written statements hlast

end Canonical
end Stylesheet
