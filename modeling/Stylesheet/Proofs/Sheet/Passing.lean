import Stylesheet.Proofs.Sheet.Property
import Stylesheet.Proofs.Sheet.Steps

/-!
# What is passed and what fails

The parser goes from item to item, and of what it has read only the scopes of the open blocks
decide how it goes on.  `Passes` and `Fails` say what an item is and where none can be read, and
build no tree.  Main statement: the items of a source fail where one comes to tokens that fail, and
nowhere else.
-/

namespace Stylesheet
namespace Sheet

open Run Character

/-! ## Scopes -/

/-- The scopes of the open blocks, the innermost first. -/
def State.scopes (state : State) : List Scope :=
  state.blocks.map OpenBlock.scope

/-- What stands within the first of the open blocks, or outside of all. -/
def innermost (scopes : List Scope) : Scope :=
  scopes.headD .sheet

namespace State

theorem scope_eq_innermost (state : State) : state.scope = innermost state.scopes := by
  rcases state with ⟨children, _ | ⟨block, outer⟩⟩ <;> rfl

theorem scopes_add (state : State) (child : Node) : (state.add child).scopes = state.scopes := by
  rcases state with ⟨children, _ | ⟨block, outer⟩⟩ <;> rfl

end State

/-! ## Items -/

/-- Whether a token is passed alone within a scope. -/
def Scope.passesAlone (scope : Scope) : TokenKind -> Bool
  | .whitespace => true
  | .semicolon => true
  | .comment _ => true
  | .cdo => scope != .declarations
  | .cdc => scope != .declarations
  | _ => false

/-- A token that begins a rule within open blocks. -/
structure BeginsRule (scopes : List Scope) (token : Token) : Prop where
  scope : innermost scopes ≠ .declarations
  item : BeginsItem token
  cdo : token.kind ≠ .cdo
  cdc : token.kind ≠ .cdc

/-- A token that begins a declaration within open blocks. -/
structure BeginsDeclaration (scopes : List Scope) (token : Token) : Prop where
  scope : innermost scopes = .declarations
  item : BeginsItem token

/--
An item within open blocks and in front of a rest, and the blocks that are open behind it.  An item
is what one step reads: of a construct with a block it is all up to the brace that opens the block.
-/
inductive Passes (scopes : List Scope) : List Token -> List Token -> List Scope -> Prop
  | alone {token : Token} {rest : List Token}
      (h : (innermost scopes).passesAlone token.kind = true) : Passes scopes [token] rest scopes
  | close {scope : Scope} {outer : List Scope} {brace : Token} {rest : List Token}
      (hscopes : scopes = scope :: outer) (hkind : brace.kind = .rightBrace) :
      Passes scopes [brace] rest outer
  | statement {keyword mark : Token} {name : String} {run rest : List Token}
      (hkind : keyword.kind = .atKeyword name) (hcut : IsCut endsPrelude run mark)
      (hmark : mark.kind = .semicolon) : Passes scopes (keyword :: (run ++ [mark])) rest scopes
  | bare {keyword mark : Token} {name : String} {run rest : List Token}
      (hkind : keyword.kind = .atKeyword name) (hcut : IsCut endsPrelude run mark)
      (hmark : mark.kind = .rightBrace ∨ mark.kind = .eof) :
      Passes scopes (keyword :: run) (mark :: rest) scopes
  | atRule {keyword mark : Token} {name : String} {run rest : List Token}
      (hkind : keyword.kind = .atKeyword name) (hcut : IsCut endsPrelude run mark)
      (hmark : mark.kind = .leftBrace) :
      Passes scopes (keyword :: (run ++ [mark])) rest (scopeOf name :: scopes)
  | rule {first mark : Token} {body run rest : List Token} (hbegins : BeginsRule scopes first)
      (hitem : first :: body = run ++ [mark]) (hcut : IsCut endsPrelude run mark)
      (hmark : mark.kind = .leftBrace) :
      Passes scopes (first :: body) rest (.declarations :: scopes)
  | declaration {first mark colon : Token} {run rest front behind : List Token}
      (hbegins : BeginsDeclaration scopes first) (hcut : IsCut endsDeclaration (first :: run) mark)
      (hrun : first :: run = front ++ colon :: behind) (hcolon : Declaration.IsCutAt front colon)
      (hproperty : Declaration.isProperty (text (trim front)) = true) :
      Passes scopes (first :: run) (mark :: rest) scopes

/--
Tokens that no item begins, within open blocks, with the fault and the token that it is laid to: a
brace that closes nothing, the end of a rule without a block, or the first token of a declaration
without a colon or without a property.
-/
inductive Fails (scopes : List Scope) : List Token -> ParseFault -> Token -> Prop
  | strayBrace {brace : Token} {rest : List Token} (hscopes : scopes = [])
      (hkind : brace.kind = .rightBrace) : Fails scopes (brace :: rest) .strayBrace brace
  | missingBlock {first mark : Token} {run rest : List Token} (hbegins : BeginsRule scopes first)
      (hcut : IsCut endsPrelude (first :: run) mark)
      (hmark : mark.kind = .semicolon ∨ mark.kind = .rightBrace ∨ mark.kind = .eof) :
      Fails scopes (first :: (run ++ mark :: rest)) .missingBlock mark
  | missingColon {first mark : Token} {run rest : List Token}
      (hbegins : BeginsDeclaration scopes first) (hcut : IsCut endsDeclaration (first :: run) mark)
      (hcolon : forall token, token ∈ first :: run -> token.kind ≠ .colon) :
      Fails scopes (first :: (run ++ mark :: rest)) .missingColon first
  | missingProperty {first mark colon : Token} {run rest front behind : List Token}
      (hbegins : BeginsDeclaration scopes first) (hcut : IsCut endsDeclaration (first :: run) mark)
      (hrun : first :: run = front ++ colon :: behind) (hcolon : Declaration.IsCutAt front colon)
      (hproperty : text (trim front) = "" ∨
        exists c, c ∈ (text (trim front)).toList ∧ isBlank c = true) :
      Fails scopes (first :: (run ++ mark :: rest)) .missingProperty first

/-- Reading item by item comes to a rest, behind what has been read and within open blocks. -/
inductive ComesTo : List Token -> List Scope -> List Token -> Prop
  | start {tokens : List Token} : ComesTo [] [] tokens
  | step {front item rest : List Token} {scopes scopes' : List Scope}
      (h : ComesTo front scopes (item ++ rest)) (hitem : Passes scopes item rest scopes') :
      ComesTo (front ++ item) scopes' rest

variable {source : SourceName} {state : State} {scopes scopes' : List Scope} {first mark : Token}
  {front item run rest more : List Token} {fault : ParseFault} {culprit : Token}

/-! ## Steps -/

theorem step_passesAlone (h : state.scope.passesAlone first.kind = true) (rest : List Token) :
    exists after, step source state first rest = .ok (after, rest) ∧
      after.scopes = state.scopes := by
  unfold step
  cases hkind : first.kind with
  | whitespace | semicolon => exact ⟨_, rfl, rfl⟩
  | comment content =>
      cases state.scope with
      | sheet => exact ⟨_, rfl, state.scopes_add _⟩
      | rules | declarations => exact ⟨_, rfl, rfl⟩
  | cdo | cdc =>
      cases hscope : state.scope with
      | sheet => exact ⟨_, rfl, state.scopes_add _⟩
      | rules => exact ⟨_, rfl, rfl⟩
      | declarations =>
          rw [hkind, hscope] at h
          cases h
  | _ =>
      rw [hkind] at h
      cases h

theorem BeginsDeclaration.step_eq (h : BeginsDeclaration state.scopes first)
    (hcut : IsCut endsDeclaration (first :: run) mark) :
    step source state first (run ++ mark :: more) =
      (Declaration.parse source first run).map fun node => (state.add node, mark :: more) := by
  rw [h.item.step_declaration (state.scope_eq_innermost.trans h.scope)]
  simp only [readDeclaration, hcut.takeUntil_tail]
  cases Declaration.parse source first run <;> rfl

theorem BeginsRule.step_eq (h : BeginsRule state.scopes first)
    (hrest : first :: rest = run ++ mark :: more) (hcut : IsCut endsPrelude run mark) :
    step source state first rest =
      if mark.kind = .leftBrace then
        .ok (state.push ⟨.rule first.start (Selector.prelude source run), mark, .declarations, []⟩,
          more)
      else .error (.atToken .missingBlock mark) := by
  rw [h.item.step_rule h.cdo h.cdc fun hscope =>
    h.scope (state.scope_eq_innermost.symm.trans hscope)]
  simp only [readRule, hrest, hcut.takeUntil]

/-- An item is read by one step. -/
theorem Passes.step_eq (source : SourceName)
    (h : Passes state.scopes (first :: run) rest scopes') :
    exists after, step source state first (run ++ rest) = .ok (after, rest) ∧
      after.scopes = scopes' := by
  cases h with
  | alone h => exact step_passesAlone (state.scope_eq_innermost ▸ h) rest
  | close hscopes hkind =>
      rcases state with ⟨children, _ | ⟨block, outer⟩⟩
      · cases hscopes
      · obtain ⟨rfl, rfl⟩ := List.cons.inj hscopes
        simp only [step, hkind, readBrace]
        exact ⟨_, rfl, State.scopes_add _ _⟩
  | statement hkind hcut hmark =>
      rw [List.append_assoc, List.singleton_append, step_atRule hkind (hcut.takeUntil _), hmark]
      exact ⟨_, rfl, state.scopes_add _⟩
  | bare hkind hcut hmark =>
      rw [step_atRule hkind (hcut.takeUntil _)]
      rcases hmark with hmark | hmark <;> rw [hmark] <;> exact ⟨_, rfl, state.scopes_add _⟩
  | atRule hkind hcut hmark =>
      rw [List.append_assoc, List.singleton_append, step_atRule hkind (hcut.takeUntil _), hmark]
      exact ⟨_, rfl, rfl⟩
  | rule hbegins hitem hcut hmark =>
      have hrest := congrArg (· ++ rest) hitem
      simp only [List.cons_append, List.append_assoc, List.nil_append] at hrest
      rw [hbegins.step_eq hrest hcut, if_pos hmark]
      exact ⟨_, rfl, rfl⟩
  | declaration hbegins hcut hrun hcolon hproperty =>
      rw [hbegins.step_eq hcut, hcolon.parse_eq source hrun, if_pos hproperty]
      exact ⟨_, rfl, state.scopes_add _⟩

/-- Where no item begins a step fails. -/
theorem Fails.step_eq (source : SourceName)
    (h : Fails state.scopes (first :: rest) fault culprit) :
    step source state first rest = .error (.atToken fault culprit) := by
  cases h with
  | strayBrace hscopes hkind =>
      rcases state with ⟨children, _ | ⟨block, outer⟩⟩
      · simp only [step, hkind, readBrace]
        rfl
      · cases hscopes
  | missingBlock hbegins hcut hmark =>
      rw [hbegins.step_eq List.cons_append.symm hcut, if_neg]
      intro hbrace
      rw [hbrace] at hmark
      rcases hmark with h | h | h <;> cases h
  | missingColon hbegins hcut hcolon =>
      rw [hbegins.step_eq hcut, Declaration.parse_of_not_colon source hcolon]
      rfl
  | missingProperty hbegins hcut hrun hcolon hproperty =>
      rw [hbegins.step_eq hcut, hcolon.parse_eq source hrun,
        if_neg (Declaration.not_isProperty_iff.mpr hproperty)]
      rfl

/-! ## Every token is passed or fails -/

/-- Some item begins a list of tokens within open blocks, or else they fail. -/
def IsDecided (scopes : List Scope) (tokens : List Token) : Prop :=
  (exists item rest scopes', tokens = item ++ rest ∧ Passes scopes item rest scopes') ∨
    exists fault culprit, Fails scopes tokens fault culprit

theorem kind_of_endsPrelude (h : IsCut endsPrelude run mark) :
    mark.kind = .leftBrace ∨ mark.kind = .semicolon ∨ mark.kind = .rightBrace ∨
      mark.kind = .eof := by
  rcases h.ends with heof | ⟨_, hstops⟩
  · exact Or.inr (Or.inr (Or.inr heof))
  · unfold endsPrelude at hstops
    split at hstops
    · exact Or.inr (Or.inl ‹_›)
    · exact Or.inl ‹_›
    · exact Or.inr (Or.inr (Or.inl ‹_›))
    · cases hstops

theorem isDecided_atKeyword {name : String} (hkind : first.kind = .atKeyword name)
    (hend : HasEnd rest) : IsDecided scopes (first :: rest) := by
  rcases hend.exists_isCut endsPrelude with ⟨run, mark, more, rfl, _, hcut⟩
  have hitem : first :: (run ++ mark :: more) = first :: (run ++ [mark]) ++ more := by
    rw [List.cons_append, List.append_assoc, List.singleton_append]
  rcases kind_of_endsPrelude hcut with hmark | hmark | hmark
  · exact Or.inl ⟨_, more, _, hitem, Passes.atRule hkind hcut hmark⟩
  · exact Or.inl ⟨_, more, _, hitem, Passes.statement hkind hcut hmark⟩
  · exact Or.inl ⟨first :: run, _, _, List.cons_append.symm, Passes.bare hkind hcut hmark⟩

theorem BeginsRule.isDecided (h : BeginsRule scopes first) (heof : first.kind ≠ .eof)
    (hend : HasEnd rest) : IsDecided scopes (first :: rest) := by
  rcases (hend.cons first).exists_isCut endsPrelude with ⟨run, mark, more, hrun, _, hcut⟩
  rcases kind_of_endsPrelude hcut with hmark | hmark
  · -- The run may be empty: then the rule begins with its brace.
    rcases List.exists_cons_of_ne_nil (List.concat_ne_nil mark run) with ⟨head, body, hitem⟩
    rw [List.append_cons, hitem] at hrun
    obtain ⟨rfl, rfl⟩ := List.cons.inj hrun
    exact Or.inl ⟨_, more, _, List.cons_append.symm, Passes.rule h hitem.symm hcut hmark⟩
  · cases run with
    | nil =>
        obtain ⟨rfl, rfl⟩ := List.cons.inj hrun
        rcases hmark with hmark | hmark | hmark
        · exact absurd hmark h.item.semicolon
        · exact absurd hmark h.item.rightBrace
        · exact absurd hmark heof
    | cons head run =>
        obtain ⟨rfl, rfl⟩ := List.cons.inj hrun
        exact Or.inr ⟨_, _, Fails.missingBlock h hcut hmark⟩

theorem BeginsDeclaration.isDecided (h : BeginsDeclaration scopes first)
    (heof : first.kind ≠ .eof) (hend : HasEnd rest) : IsDecided scopes (first :: rest) := by
  rcases (hend.cons first).exists_isCut endsDeclaration with ⟨run, mark, more, hrun, _, hcut⟩
  cases run with
  | nil =>
      obtain ⟨rfl, rfl⟩ := List.cons.inj hrun
      rcases hcut.ends with hmark | ⟨_, hstops⟩
      · exact absurd hmark heof
      · rw [h.item.endsDeclaration_eq] at hstops
        cases hstops
  | cons head run =>
      obtain ⟨rfl, rfl⟩ := List.cons.inj hrun
      rcases Declaration.exists_isCutAt_or (first :: run) with
        ⟨front, colon, behind, hrun, hcolon⟩ | hnone
      · by_cases hproperty : Declaration.isProperty (text (trim front)) = true
        · exact Or.inl ⟨first :: run, _, _, List.cons_append.symm,
            Passes.declaration h hcut hrun hcolon hproperty⟩
        · have hfails := Declaration.not_isProperty_iff.mp hproperty
          exact Or.inr ⟨_, _, Fails.missingProperty h hcut hrun hcolon hfails⟩
      · exact Or.inr ⟨_, _, Fails.missingColon h hcut hnone⟩

theorem isDecided (scopes : List Scope) (heof : first.kind ≠ .eof) (hend : HasEnd rest) :
    IsDecided scopes (first :: rest) := by
  by_cases halone : (innermost scopes).passesAlone first.kind = true
  · exact Or.inl ⟨[first], rest, scopes, rfl, Passes.alone halone⟩
  by_cases hbrace : first.kind = .rightBrace
  · cases scopes with
    | nil => exact Or.inr ⟨_, _, Fails.strayBrace rfl hbrace⟩
    | cons scope outer => exact Or.inl ⟨[first], rest, outer, rfl, Passes.close rfl hbrace⟩
  by_cases hkeyword : exists name, first.kind = .atKeyword name
  · rcases hkeyword with ⟨name, hkind⟩
    exact isDecided_atKeyword hkind hend
  have hitem : BeginsItem first := by
    refine ⟨hbrace, ?_, ?_, ?_, fun name hkind => hkeyword ⟨name, hkind⟩⟩ <;>
      intros <;> intro hkind <;> exact halone (by rw [hkind]; rfl)
  by_cases hscope : innermost scopes = .declarations
  · exact (BeginsDeclaration.mk hscope hitem).isDecided heof hend
  · refine (BeginsRule.mk hscope hitem ?_ ?_).isDecided heof hend <;>
      intro hkind <;> exact halone (by rw [hkind]; exact bne_iff_ne.mpr hscope)

/-! ## Reading item by item -/

theorem Passes.kind_ne_eof {token : Token} (h : Passes scopes item rest scopes')
    (hmem : token ∈ item) : token.kind ≠ .eof := by
  cases h with
  | alone h =>
      intro heof
      rw [← List.mem_singleton.mp hmem, heof] at h
      cases h
  | close _ hkind =>
      rw [List.mem_singleton.mp hmem, hkind]
      exact TokenKind.noConfusion
  | bare hkind hcut =>
      rcases List.mem_cons.mp hmem with rfl | hmem
      · rw [hkind]
        exact TokenKind.noConfusion
      · exact hcut.kind_ne_eof hmem
  | statement hkind hcut hmark | atRule hkind hcut hmark =>
      rcases List.mem_cons.mp hmem with rfl | hmem
      · rw [hkind]
        exact TokenKind.noConfusion
      · exact hcut.kind_ne_eof_of_mark hmark TokenKind.noConfusion hmem
  | rule _ hitem hcut hmark =>
      rw [hitem] at hmem
      exact hcut.kind_ne_eof_of_mark hmark TokenKind.noConfusion hmem
  | declaration _ hcut => exact hcut.kind_ne_eof hmem

theorem Passes.exists_cons (h : Passes scopes item rest scopes') :
    exists first run, item = first :: run ∧ first.kind ≠ .eof := by
  have hne : item ≠ [] := by
    cases h <;> exact List.cons_ne_nil _ _
  rcases List.exists_cons_of_ne_nil hne with ⟨first, run, rfl⟩
  exact ⟨first, run, rfl, h.kind_ne_eof List.mem_cons_self⟩

theorem Fails.exists_cons {tokens : List Token} (h : Fails scopes tokens fault culprit) :
    exists first rest, tokens = first :: rest ∧ first.kind ≠ .eof := by
  cases h with
  | strayBrace _ hkind =>
      refine ⟨_, _, rfl, ?_⟩
      rw [hkind]
      exact TokenKind.noConfusion
  | missingBlock _ hcut | missingColon _ hcut | missingProperty _ hcut =>
      exact ⟨_, _, rfl, hcut.kind_ne_eof List.mem_cons_self⟩

/-- Up to where reading has come, the items are read by steps. -/
theorem ComesTo.readItems_eq (source : SourceName) (h : ComesTo front scopes rest) :
    exists state : State, state.scopes = scopes ∧
      readItems source .initial (front ++ rest) = readItems source state rest := by
  induction h with
  | start => exact ⟨.initial, rfl, rfl⟩
  | @step front item rest scopes scopes' _ hitem ih =>
      rcases ih with ⟨state, rfl, hread⟩
      rcases hitem.exists_cons with ⟨first, run, rfl, heof⟩
      rcases hitem.step_eq source with ⟨after, hstep, hscopes⟩
      refine ⟨after, hscopes, ?_⟩
      rw [List.append_assoc, hread, List.cons_append, readItems_cons heof, hstep]
      rfl

/-- Item by item one comes to tokens that fail, with a fault that is laid to a token. -/
def FailsAt (tokens : List Token) (fault : ParseFault) (culprit : Token) : Prop :=
  exists front scopes rest, tokens = front ++ rest ∧ ComesTo front scopes rest ∧
    Fails scopes rest fault culprit

/-- An error comes from tokens that fail, at or behind the place where reading has come to. -/
theorem ComesTo.failsAt {error : ParseError} (hcomes : ComesTo front state.scopes rest)
    (hend : HasEnd rest) (h : readItems source state rest = .error error) :
    exists culprit, FailsAt (front ++ rest) error.fault culprit ∧
      error.position = culprit.start := by
  -- Every step leaves less to read, and the blocks that its item leaves open are those of its state.
  induction hlength : rest.length using Nat.strong_induction_on generalizing front rest state with
  | _ length ih =>
      cases rest with
      | nil => exact absurd rfl hend.ne_nil
      | cons first rest =>
          by_cases heof : first.kind = .eof
          · rw [readItems_eof heof] at h
            cases h
          rw [readItems_cons heof] at h
          rcases isDecided state.scopes heof (hend.tail heof) with
            ⟨item, more, scopes', htokens, hitem⟩ | ⟨fault, culprit, hfails⟩
          · rcases hitem.exists_cons with ⟨head, run, rfl, _⟩
            obtain ⟨rfl, rfl⟩ := List.cons.inj htokens
            rcases hitem.step_eq source with ⟨after, hstep, rfl⟩
            rw [List.append_eq, hstep] at h
            have hmore : ComesTo (front ++ first :: run) after.scopes more := hcomes.step hitem
            have hshorter : more.length < length := by
              rw [← hlength, List.append_eq, List.length_cons, List.length_append]
              omega
            have hrest : HasEnd more :=
              (htokens ▸ hend).of_append fun token htoken => hitem.kind_ne_eof htoken
            rw [htokens, ← List.append_assoc]
            exact ih more.length hshorter hmore hrest h rfl
          · rw [hfails.step_eq source] at h
            cases h
            exact ⟨culprit, ⟨front, _, _, rfl, hcomes, hfails⟩, rfl⟩

/-- The items of a source fail where one comes to tokens that fail, and nowhere else. -/
theorem readItems_eq_error_iff {tokens : List Token} {error : ParseError} (hend : HasEnd tokens) :
    readItems source .initial tokens = .error error <->
      exists culprit, FailsAt tokens error.fault culprit ∧ error.position = culprit.start := by
  constructor
  · have hstart : ComesTo [] State.initial.scopes tokens := ComesTo.start
    exact hstart.failsAt hend
  · intro h
    rcases h with ⟨culprit, hat, hposition⟩
    rcases hat with ⟨front, scopes, rest, rfl, hcomes, hfails⟩
    rcases hcomes.readItems_eq source with ⟨state, rfl, hread⟩
    rcases hfails.exists_cons with ⟨first, rest, rfl, heof⟩
    rw [hread, readItems_cons heof, hfails.step_eq source]
    exact congrArg Except.error (congrArg (ParseError.mk error.fault) hposition.symm)

end Sheet
end Stylesheet
