import Stylesheet.Proofs.Cursor.Text
import Stylesheet.Proofs.Selector.Derivation

/-!
# Selectors by index

The parts of a selector are read by a loop over an index that each simple selector moves as far
as it reaches, and the arguments of a pseudo-class by a recursive call, which is checked to be on
a shorter run.
-/

namespace Stylesheet
namespace Cursor

open Selector

variable {source : SourceName}

/-! ## Attribute selectors -/

/-- The matcher at an index, and the index behind it. -/
def matcherAt (run : List Token) (i : Nat) : Checked (Option (String × Nat)) := do
  let token ← tokenAt run i
  match token.kind, run[i + 1]?.map Token.kind with
  | .delim '=', _ => return some ("=", i + 1)
  | .delim mark, some (.delim '=') =>
      if matcherMarks.contains mark then return some (String.ofList [mark, '='], i + 2)
      else return none
  | _, _ => return none

/-- The flags at an index, which end the attribute selector. -/
def flagsAt (run : List Token) (i : Nat) : Option (Option String) :=
  match run[i]?.map Token.kind with
  | none => some none
  | some (.ident flags) => if i + 1 = run.length then some (some flags) else none
  | some _ => none

/-- The construct of an attribute selector, read from the tokens that are no trivia. -/
def attributeOf (source : SourceName) (run : List Token) :
    Checked (Option (Construct Node)) := do
  match run.head?.map Token.kind with
  | some (.ident name) =>
      if 1 < run.length then
        match ← matcherAt run 1 with
        | none => return none
        | some (matcher, i) =>
            match run[i]? with
            | none => return none
            | some token =>
                match attributeValue? source token, flagsAt run (i + 1) with
                | some value, some flags =>
                    return some (.attributeSelector name (some matcher) (some value) flags)
                | _, _ => return none
      else
        return some (.attributeSelector name none none none)
  | _ => return none

theorem matcherAt_append (front : List Token) {comparison : List Token} (hne : comparison ≠ []) :
    (matcher? comparison = none ∧ matcherAt (front ++ comparison) front.length = .ok none) ∨
      exists matcher mark rest, comparison = mark ++ rest ∧
        matcher? comparison = some (matcher, rest) ∧
          matcherAt (front ++ comparison) front.length =
            .ok (some (matcher, (front ++ mark).length)) := by
  fun_cases matcher? comparison with
  | case1 text start rest =>
      refine Or.inr ⟨_, [⟨.delim '=', text, start⟩], rest, rfl, rfl, ?_⟩
      simp [matcherAt]
  | case2 mark text start text' start' rest hne' hmark =>
      refine Or.inr ⟨_, [⟨.delim mark, text, start⟩, ⟨.delim '=', text', start'⟩], rest, rfl,
        rfl, ?_⟩
      rw [matcherAt, tokenAt_append, ok_bind, getElem?_behind]
      simpa using hmark
  | case3 mark text start text' start' rest hne' hmark =>
      refine Or.inl ⟨rfl, ?_⟩
      rw [matcherAt, tokenAt_append, ok_bind, getElem?_behind]
      simpa using hmark
  | case4 =>
      rename_i hequals hmark
      refine Or.inl ⟨rfl, ?_⟩
      rcases List.exists_cons_of_ne_nil hne with ⟨⟨kind, text, start⟩, rest, rfl⟩
      rw [matcherAt, tokenAt_append, ok_bind, getElem?_behind]
      split
      · rename_i hkind
        subst hkind
        exact absurd rfl (hequals text start rest)
      · rename_i mark _ hkind hhead
        subst hkind
        rcases rest with _ | ⟨⟨kind, text', start'⟩, rest⟩
        · cases hhead
        · cases hhead
          exact absurd rfl (hmark mark text start text' start' rest)
      · rfl

theorem flagsAt_append (front : List Token) (token : Token) (rest : List Token) :
    flagsAt (front ++ token :: rest) (front.length + 1) = attributeFlags? rest := by
  rw [flagsAt, getElem?_behind]
  rcases rest with _ | ⟨⟨kind, text, start⟩, rest⟩
  · rfl
  · cases kind with
    | ident flags =>
        cases rest with
        | nil => simp [attributeFlags?]
        | cons other rest =>
            have hlonger : ¬ front.length + 1 + 1 = front.length + (rest.length + 1 + 1 + 1) := by
              omega
            simp [attributeFlags?, hlonger]
    | _ => cases rest <;> rfl

@[simp] theorem attributeOf_significant (source : SourceName) (content : List Token) :
    attributeOf source (Run.significant content) = .ok (attribute? source content) := by
  unfold attributeOf attribute?
  rcases Run.significant content with _ | ⟨⟨kind, text, start⟩, comparison⟩
  · rfl
  · cases kind with
    | ident name =>
        cases comparison with
        | nil => rfl
        | cons first more =>
            have hmore : 1 < (⟨.ident name, text, start⟩ :: first :: more : List Token).length := by
              simp
            simp only [List.head?_cons, Option.map_some, if_pos hmore]
            rcases matcherAt_append [⟨.ident name, text, start⟩] (List.cons_ne_nil first more) with
              ⟨hnone, hat⟩ | ⟨matcher, mark, rest, hcomparison, hsome, hat⟩
            · simp only [List.singleton_append, List.length_singleton] at hat
              simp only [hnone, hat]
              rfl
            · simp only [List.singleton_append, List.length_singleton] at hat
              simp only [hsome, hat, ok_bind]
              rw [hcomparison, ← List.cons_append]
              simp only [getElem?_front]
              cases rest with
              | nil => rfl
              | cons token rest =>
                  simp only [List.head?_cons, flagsAt_append]
                  cases attributeValue? source token <;> cases attributeFlags? rest <;> rfl
    | _ => cases comparison <;> rfl

/-- Reads an attribute selector, with its brackets. -/
def readAttribute (source : SourceName) (group : List Token) : Checked (Option Node) := do
  let construct ← attributeOf source (Run.significant (← interior group))
  return construct.map (Node.spanning source group)

theorem readAttribute_wholeGroup (opener : Token) (group : Run.Group) :
    readAttribute source (wholeGroup opener group) =
      .ok ((attribute? source group.content).map
        (Node.spanning source (wholeGroup opener group))) := by
  rw [readAttribute, interior_wholeGroup, ok_bind, attributeOf_significant]
  rfl

/-! ## Positions -/

/-- The index of the first `of` that stands behind whitespace; the tokens before `i` are seen. -/
def ofFrom (run : List Token) (i : Nat) : List Token -> Checked (Option Nat)
  | [] => return none
  | token :: rest =>
      if 0 < i && isOf token then do
        let before ← tokenAt run (i - 1)
        if before.kind = .whitespace then return some i else ofFrom run (i + 1) rest
      else
        ofFrom run (i + 1) rest

/-- The construct of a position: one of two words, or the An+B notation. -/
def positionOf (run : List Token) : Checked (Option (Construct Node)) := do
  let text := String.ofList ((Run.text run).toList.filter fun c => !Character.isBlank c)
  if sameWord text "odd" || sameWord text "even" then
    return some (.identifier text)
  else
    let coefficients ← anPlusB? text
    return coefficients.map fun ⟨a, b⟩ => .anPlusB a b

@[simp] theorem positionOf_eq (run : List Token) : positionOf run = .ok (position? run) := by
  unfold positionOf position?
  dsimp only
  split
  · rfl
  · rw [anPlusB?_eq]
    rfl

/-- A position with the selectors it counts among, which have been read. -/
def nth (source : SourceName) (run formula : List Token) (selectors : Option Node) :
    Checked (Option Node) := do
  let construct ← positionOf formula
  return construct.map fun construct =>
    Node.spanning source run (.nth (Node.spanning source formula construct) selectors)

@[simp] theorem nth_eq (source : SourceName) (run formula : List Token)
    (selectors : Option Node) :
    nth source run formula selectors = .ok (nth? source run formula selectors) := by
  rw [nth, positionOf_eq]
  rfl

/-- Reads a position, and behind `of` the selectors that it counts among. -/
def readNth (source : SourceName) (nested : List Token -> Checked (Option Node))
    (run : List Token) : Checked (Option Node) := do
  match ← ofFrom run 0 run with
  | none => nth source run run none
  | some i =>
      match ← nested (← slice run (i + 1) run.length) with
      | none => return none
      | some selectors =>
          let formula ← trim (← slice run 0 i)
          nth source run formula (some selectors)

/-- The index of `of`, and the two runs that it stands between. -/
theorem ofFrom_append (front : List Token) (space : Token) (rest : List Token) :
    (splitOf? (space :: rest) = none ∧
        ofFrom (front ++ space :: rest) (front.length + 1) rest = .ok none) ∨
      exists before after, splitOf? (space :: rest) = some (before, after) ∧
        ofFrom (front ++ space :: rest) (front.length + 1) rest =
          .ok (some (front ++ before).length) ∧
        exists word, space :: rest = before ++ word :: after := by
  induction rest generalizing front space with
  | nil => exact Or.inl ⟨rfl, rfl⟩
  | cons word rest ih =>
      have hinner := ih (front ++ [space]) word
      simp only [List.append_assoc, List.singleton_append, List.length_append,
        List.length_singleton] at hinner
      have hstep : ofFrom (front ++ space :: word :: rest) (front.length + 1) (word :: rest) =
          if space.kind = .whitespace && isOf word then .ok (some (front.length + 1))
          else ofFrom (front ++ space :: word :: rest) (front.length + 1 + 1) rest := by
        rw [ofFrom, Nat.add_sub_cancel, tokenAt_append, ok_bind]
        cases isOf word <;> simp
      rw [hstep, splitOf?]
      split
      · exact Or.inr ⟨[space], rest, rfl, by simp, word, rfl⟩
      · rcases hinner with ⟨hnone, hfrom⟩ | ⟨before, after, hsome, hfrom, word', hword⟩
        · rw [hnone]
          exact Or.inl ⟨rfl, hfrom⟩
        · rw [hsome]
          refine Or.inr ⟨space :: before, after, rfl, ?_, word', ?_⟩
          · rw [hfrom]
            simp
          · rw [hword]
            rfl

theorem readNth_eq {nested : List Token -> Checked (Option Node)} {run : List Token}
    (hnested : forall inner, inner.length < run.length -> nested inner = .ok (list? source inner)) :
    readNth source nested run =
      .ok (match splitOf? run with
        | none => nth? source run run none
        | some (before, after) =>
            (list? source after).bind fun selectors =>
              nth? source run (Run.trim before) (some selectors)) := by
  cases run with
  | nil => exact nth_eq source [] [] none
  | cons space rest =>
      have hstart : ofFrom (space :: rest) 0 (space :: rest) =
          ofFrom (space :: rest) 1 rest := by
        rw [ofFrom]
        rfl
      rw [readNth, hstart]
      rcases ofFrom_append [] space rest with
        ⟨hnone, hfrom⟩ | ⟨before, after, hsome, hfrom, word, hword⟩
      · simp only [List.nil_append, List.length_nil, Nat.zero_add] at hfrom
        simp only [hfrom, hnone, ok_bind, nth_eq]
      · simp only [List.nil_append, List.length_nil, Nat.zero_add] at hfrom
        have hbefore := slice_start before (word :: after)
        have hafter := slice_end (before ++ [word]) after
        rw [List.append_assoc, List.singleton_append, List.length_append,
          List.length_singleton, ← hword] at hafter
        rw [← hword] at hbefore
        simp only [hfrom, hsome, ok_bind, hafter, hbefore, trim_eq, nth_eq,
          hnested after (splitOf?_length_lt hsome)]
        cases list? source after <;> rfl

/-! ## Pseudo-classes and pseudo-elements -/

/-- The argument of a pseudo-class or pseudo-element of that name. -/
def readArgument (source : SourceName) (nested : List Token -> Checked (Option Node))
    (name : String) (run : List Token) : Checked Node := do
  let run ← trim run
  let modelled ←
    if takesSelectors name then nested run
    else if takesPosition name then readNth source nested run
    else if takesWord name then .ok (word? source run)
    else .ok none
  return modelled.getD (Node.rawRun source run)

theorem readArgument_eq {nested : List Token -> Checked (Option Node)} {run : List Token}
    (hnested : forall inner, inner.length ≤ run.length -> nested inner = .ok (list? source inner))
    (name : String) :
    readArgument source nested name run = .ok (argument source name (Run.trim run)) := by
  have hlength := Run.trim_length_le run
  have hnested' : forall inner, inner.length < (Run.trim run).length ->
      nested inner = .ok (list? source inner) :=
    fun inner hinner => hnested inner (Nat.le_trans (Nat.le_of_lt hinner) hlength)
  have hnth := readNth_eq hnested'
  rw [readArgument, trim_eq, ok_bind, argument_eq, hnested _ hlength, hnth]
  split
  · rfl
  · split
    · rfl
    · split <;> rfl

/-- A pseudo-class or pseudo-element from one index through another, and the index behind it. -/
def pseudoThrough (source : SourceName) (run : List Token) (isElement : Bool) (name : String)
    (children : Option (List Node)) (i last : Nat) : Checked (Option (Node × Nat)) := do
  let covered ← slice run i (last + 1)
  let construct :=
    if isElement then Construct.pseudoElement name children
    else Construct.pseudoClass name children
  return some (Node.spanning source covered construct, last + 1)

/-- The pseudo-class or pseudo-element that begins at `i` and whose name is at `nameAt`. -/
def pseudoNameAt (source : SourceName) (nested : List Token -> Checked (Option Node))
    (run : List Token) (isElement : Bool) (i nameAt : Nat) : Checked (Option (Node × Nat)) :=
  match run[nameAt]?.map Token.kind with
  | some (.ident name) => pseudoThrough source run isElement name none i nameAt
  | some (.function name) =>
      match matchingClose? run nameAt with
      | none => return none
      | some close => do
          let argument ← readArgument source nested name (← slice run (nameAt + 1) close)
          pseudoThrough source run isElement name (some [argument]) i close
  | _ => return none

/-- The pseudo-class or pseudo-element whose first colon is at an index. -/
def pseudoAt (source : SourceName) (nested : List Token -> Checked (Option Node))
    (run : List Token) (i : Nat) : Checked (Option (Node × Nat)) :=
  if run[i + 1]?.map Token.kind = some .colon then pseudoNameAt source nested run true i (i + 2)
  else pseudoNameAt source nested run false i (i + 1)

/--
What a reader by index returns in front of a run, where a reader of lists finds a simple selector
or none: the index behind the tokens that have been passed.
-/
inductive Finds (front run : List Token) : Option Simple -> Checked (Option (Node × Nat)) -> Prop
  | none : Finds front run none (.ok none)
  | some {simple : Simple} {passed : List Token} (hrun : run = passed ++ simple.rest)
      (hne : passed ≠ []) :
      Finds front run (some simple) (.ok (some (simple.node, (front ++ passed).length)))

theorem Finds.of_length {front run : List Token} {simple : Simple} {next : Nat}
    (passed : List Token) (hrun : run = passed ++ simple.rest) (hne : passed ≠ [])
    (hnext : next = (front ++ passed).length) :
    Finds front run (Option.some simple) (.ok (Option.some (simple.node, next))) := by
  rw [hnext]
  exact Finds.some hrun hne

/-- A pseudo-class or pseudo-element as a simple selector. -/
def ofPseudo (source : SourceName) (pseudo : Pseudo) : Simple :=
  ⟨pseudo.node source, pseudo.rest⟩

theorem pseudoThrough_finds (source : SourceName) (front : List Token) (pseudo : Pseudo)
    (last : Nat) (hlast : last + 1 = (front ++ pseudo.run).length) (hne : pseudo.run ≠ []) :
    Finds front (pseudo.run ++ pseudo.rest) (some (ofPseudo source pseudo))
      (pseudoThrough source (front ++ (pseudo.run ++ pseudo.rest)) pseudo.isElement pseudo.name
        (pseudo.arguments.map fun arguments =>
          [argument source pseudo.name (Run.trim arguments)]) front.length last) := by
  have hslice := slice_append front pseudo.run pseudo.rest
  rw [← List.length_append, List.append_assoc] at hslice
  rw [pseudoThrough, hlast, hslice]
  exact Finds.some rfl hne

theorem pseudoNameAt_finds {nested : List Token -> Checked (Option Node)} {run : List Token}
    (hnested : forall inner, inner.length < run.length -> nested inner = .ok (list? source inner))
    (front colons : List Token) (isElement : Bool) :
    Finds front (colons ++ run) ((pseudoName? colons isElement run).map (ofPseudo source))
      (pseudoNameAt source nested (front ++ (colons ++ run)) isElement front.length
        (front ++ colons).length) := by
  have hname : (front ++ (colons ++ run))[(front ++ colons).length]? = run.head? := by
    rw [← List.append_assoc, getElem?_front]
  unfold pseudoNameAt
  rw [hname]
  cases run with
  | nil => exact Finds.none
  | cons token rest =>
      rw [pseudoName?, List.head?_cons, Option.map_some]
      cases hkind : token.kind with
      | ident name =>
          have hfinds := pseudoThrough_finds source front
            ⟨colons ++ [token], isElement, name, none, rest⟩ (front ++ colons).length
            (by simp [Nat.add_assoc]) (by simp)
          simp only [List.append_assoc, List.singleton_append] at hfinds
          exact hfinds
      | function name =>
          have hopener : token.isOpener = true := congrArg TokenKind.isOpener hkind
          cases hgroup : Run.splitGroup? 0 rest with
          | none =>
              have hnone := matchingClose?_append hopener (front ++ colons) rest
              rw [hgroup, List.append_assoc] at hnone
              simp only [hnone]
              exact Finds.none
          | some group =>
              rcases exists_isClose hopener hgroup (front ++ colons) with ⟨close, hclose⟩
              have hshorter := (Run.splitGroup?_lengths hgroup).1
              have hargument : readArgument source nested name group.content =
                  .ok (argument source name (Run.trim group.content)) := by
                apply readArgument_eq
                intro inner hinner
                apply hnested
                rw [List.length_cons]
                omega
              have hfinds := pseudoThrough_finds source front
                ⟨colons ++ wholeGroup token group, isElement, name, some group.content, group.rest⟩
                close (by rw [hclose.behind, List.append_assoc]) (by simp [wholeGroup])
              rw [← wholeGroup_append hgroup] at hfinds
              have hfound := hclose.found
              have hinner := hclose.inner
              rw [List.append_assoc] at hfound hinner
              simp only [hfound]
              rw [hinner, ok_bind, hargument, ok_bind]
              rw [List.append_assoc, List.cons_append]
              exact hfinds
      | _ => exact Finds.none

theorem pseudoAt_finds {nested : List Token -> Checked (Option Node)} {rest : List Token}
    (hnested : forall inner, inner.length < rest.length -> nested inner = .ok (list? source inner))
    (front : List Token) (colon : Token) :
    Finds front (colon :: rest) ((pseudo? colon rest).map (ofPseudo source))
      (pseudoAt source nested (front ++ colon :: rest) front.length) := by
  have hclass := pseudoNameAt_finds hnested front [colon] false
  rw [List.length_append, List.length_singleton, List.singleton_append] at hclass
  unfold pseudoAt
  rw [getElem?_behind]
  cases rest with
  | nil => exact hclass
  | cons second rest =>
      rw [pseudo?, List.head?_cons, Option.map_some]
      by_cases hkind : second.kind = .colon
      · have hshorter : forall inner, inner.length < rest.length ->
            nested inner = .ok (list? source inner) :=
          fun inner hinner => hnested inner (Nat.lt_succ_of_lt hinner)
        rw [if_pos hkind, if_pos (congrArg some hkind)]
        have helement := pseudoNameAt_finds hshorter front [colon, second] true
        rw [List.length_append] at helement
        exact helement
      · rw [if_neg hkind, if_neg (fun heq => hkind (Option.some.inj heq))]
        exact hclass

/-! ## Simple selectors -/

/-- The type selector at an index; a name with a prefix is not modelled. -/
def typeAt (source : SourceName) (run : List Token) (token : Token) (name : String) (i : Nat) :
    Checked (Option (Node × Nat)) :=
  if run[i + 1]?.map Token.kind = some (.delim '|') then
    return none
  else
    return some (Node.ofToken source token (.typeSelector name), i + 1)

/-- The class selector whose full stop is at an index. -/
def classAt (source : SourceName) (run : List Token) (i : Nat) :
    Checked (Option (Node × Nat)) :=
  match run[i + 1]?.map Token.kind with
  | some (.ident name) => do
      let covered ← slice run i (i + 2)
      return some (Node.spanning source covered (.classSelector name), i + 2)
  | _ => return none

/-- The attribute selector whose bracket is at an index. -/
def attributeAt (source : SourceName) (run : List Token) (i : Nat) :
    Checked (Option (Node × Nat)) :=
  match matchingClose? run i with
  | none => return none
  | some close => do
      let node ← readAttribute source (← slice run i (close + 1))
      return node.map fun node => (node, close + 1)

/-- The simple selector at an index, and the index behind it. -/
def simpleAt (source : SourceName) (nested : List Token -> Checked (Option Node))
    (run : List Token) (i : Nat) : Checked (Option (Node × Nat)) := do
  let token ← tokenAt run i
  match token.kind with
  | .ident name => typeAt source run token name i
  | .delim '*' => typeAt source run token "*" i
  | .delim '.' => classAt source run i
  | .hash name => return some (Node.ofToken source token (.idSelector name), i + 1)
  | .leftBracket => attributeAt source run i
  | .colon => pseudoAt source nested run i
  | _ => return none

/-- The simple selector that begins with a token. -/
def operand? (source : SourceName) (token : Token) (rest : List Token) : Option Simple :=
  if token.kind = .colon then (pseudo? token rest).map (ofPseudo source)
  else simple? source token rest

theorem typeAt_finds (front : List Token) (token : Token) (name : String) (rest : List Token) :
    Finds front (token :: rest) (type? source token name rest)
      (typeAt source (front ++ token :: rest) token name front.length) := by
  have hbar : rest.head?.map Token.kind = some (.delim '|') <-> startsBar rest = true := by
    rcases rest with _ | ⟨⟨kind, text, start⟩, rest⟩
    · simp [startsBar]
    · cases kind with
      | delim c =>
          by_cases hc : c = '|'
          · simp [startsBar, hc]
          · simp [startsBar, hc]
      | _ => simp [startsBar]
  rw [typeAt, type?, getElem?_behind]
  by_cases hstarts : startsBar rest = true
  · rw [if_pos hstarts, if_pos (hbar.mpr hstarts)]
    exact Finds.none
  · rw [if_neg hstarts, if_neg (fun h => hstarts (hbar.mp h))]
    exact Finds.of_length [token] rfl (List.cons_ne_nil _ _) (by simp)

theorem classAt_finds (front : List Token) {dot : Token} (hdot : dot.kind = .delim '.')
    (rest : List Token) :
    Finds front (dot :: rest) (simple? source dot rest)
      (classAt source (front ++ dot :: rest) front.length) := by
  unfold simple? classAt
  rw [hdot, getElem?_behind]
  cases rest with
  | nil => exact Finds.none
  | cons word after =>
      dsimp only [List.head?_cons, Option.map_some]
      cases hkind : word.kind with
      | ident name =>
          have hslice := slice_append front [dot, word] after
          rw [List.append_assoc] at hslice
          have hslice' : slice (front ++ dot :: word :: after) front.length (front.length + 2) =
              .ok [dot, word] := hslice
          simp only [hslice', ok_bind]
          have hlength : front.length + 2 = (front ++ [dot, word]).length := by
            rw [List.length_append]
            rfl
          exact Finds.of_length [dot, word] rfl (List.cons_ne_nil _ _) hlength
      | _ => exact Finds.none

theorem attributeAt_finds (front : List Token) {bracket : Token}
    (hbracket : bracket.kind = .leftBracket) (rest : List Token) :
    Finds front (bracket :: rest) (simple? source bracket rest)
      (attributeAt source (front ++ bracket :: rest) front.length) := by
  have hopener : bracket.isOpener = true := congrArg TokenKind.isOpener hbracket
  unfold simple? attributeAt
  rw [hbracket]
  cases hgroup : Run.splitGroup? 0 rest with
  | none =>
      simp only [matchingClose?_append hopener, hgroup, Option.map_none]
      exact Finds.none
  | some group =>
      rcases exists_isClose hopener hgroup front with ⟨close, hclose⟩
      simp only [hclose.found, hclose.whole, ok_bind, readAttribute_wholeGroup]
      cases attribute? source group.content with
      | none => exact Finds.none
      | some construct =>
          apply Finds.of_length (wholeGroup bracket group)
          · exact wholeGroup_append hgroup [] bracket
          · exact List.cons_ne_nil _ _
          · exact hclose.behind

theorem simpleAt_finds {nested : List Token -> Checked (Option Node)} {rest : List Token}
    (hnested : forall inner, inner.length < rest.length -> nested inner = .ok (list? source inner))
    (front : List Token) (token : Token) :
    Finds front (token :: rest) (operand? source token rest)
      (simpleAt source nested (front ++ token :: rest) front.length) := by
  unfold simpleAt
  rw [tokenAt_append, ok_bind]
  by_cases hcolon : token.kind = .colon
  · rw [operand?, if_pos hcolon, hcolon]
    exact pseudoAt_finds hnested front token
  · rw [operand?, if_neg hcolon]
    split
    · rename_i name hkind
      unfold simple?
      rw [hkind]
      exact typeAt_finds front token name rest
    · rename_i hkind
      unfold simple?
      rw [hkind]
      exact typeAt_finds front token "*" rest
    · rename_i hkind
      exact classAt_finds front hkind rest
    · rename_i name hkind
      unfold simple?
      rw [hkind]
      exact Finds.of_length [token] rfl (List.cons_ne_nil _ _) (by simp)
    · rename_i hkind
      exact attributeAt_finds front hkind rest
    · contradiction
    · rename_i hident hstar hdot hhash hbracket _
      unfold simple?
      split
      · exact absurd ‹_› (hident _)
      · contradiction
      · contradiction
      · exact absurd ‹_› (hhash _)
      · contradiction
      · exact Finds.none

/-! ## Complex selectors -/

/-- Whether a type selector is at an index. -/
def startsTypeAt (run : List Token) (i : Nat) : Bool :=
  match run[i]?.map Token.kind with
  | some (.ident _) => true
  | some (.delim '*') => true
  | _ => false

/--
Reads the parts of a selector from an index on, behind those read so far, the latest first;
`nested` reads a list of selectors within an argument.
-/
def partsFrom (source : SourceName) (nested : List Token -> Checked (Option Node))
    (run : List Token) (parts : List Node) (gap : Option Token) (i : Nat) :
    Checked (Option (List Node)) :=
  if _h : i < run.length then do
    let token ← tokenAt run i
    match token.kind with
    | .whitespace =>
        let gap := if endsSimple parts then some token else gap
        partsFrom source nested run parts gap (i + 1)
    | .comment _ =>
        let gap := if endsSimple parts && startsTypeAt run (i + 1) then some token else gap
        partsFrom source nested run parts gap (i + 1)
    | _ =>
        match combinator? token with
        | some name =>
            if endsCombinator parts then
              return none
            else
              let node := Node.ofToken source token (.combinator name)
              partsFrom source nested run (node :: parts) none (i + 1)
        | none =>
            match ← simpleAt source nested run i with
            | none => return none
            | some (node, next) =>
                if _h' : i < next then
                  partsFrom source nested run (node :: addDescendant source gap parts) none next
                else
                  .error .stall
  else
    return if endsSimple parts then some parts.reverse else none
termination_by run.length - i

/-- A selector over its part of a list. -/
def readSelector (source : SourceName) (nested : List Token -> Checked (Option Node))
    (part : List Token) : Checked (Option Node) := do
  let parts ← partsFrom source nested part [] none 0
  return parts.map fun parts => Node.spanning source part (.selector parts)

/-- A list of selectors between commas, if the run is one. -/
def selectorList (source : SourceName) (run : List Token) : Checked (Option Node) := do
  let nested inner :=
    if _h : inner.length < run.length then selectorList source inner else .error .descent
  let trimmed ← trim run
  let selectors ← readParts (readSelector source nested) (← splitTopLevel (· == .comma) trimmed)
  return selectors.map fun selectors => Node.spanning source trimmed (.selectorList selectors)
termination_by run.length

/-- The prelude of a rule: a list of selectors, or else the text as it is written. -/
def rulePrelude (source : SourceName) (run : List Token) : Checked Node := do
  let run ← trim run
  let list ← selectorList source run
  return list.getD (Node.rawRun source run)

theorem startsTypeAt_behind (front : List Token) (token : Token) (rest : List Token) :
    startsTypeAt (front ++ token :: rest) (front.length + 1) = startsType rest := by
  rw [startsTypeAt, getElem?_behind]
  rcases rest with _ | ⟨⟨kind, text, start⟩, rest⟩
  · rfl
  · cases kind with
    | delim c =>
        by_cases hc : c = '*'
        · simp [startsType, hc]
        · simp [startsType, hc]
    | _ => rfl

theorem parts?_operand {token : Token} (hwhitespace : token.kind ≠ .whitespace)
    (hcomment : forall content, token.kind ≠ .comment content)
    (hcombinator : combinator? token = none) (earlier : List Node) (gap : Option Token)
    (rest : List Token) :
    parts? source earlier gap (token :: rest) =
      (operand? source token rest).bind fun simple =>
        parts? source (simple.node :: addDescendant source gap earlier) none simple.rest := by
  unfold operand?
  by_cases hcolon : token.kind = .colon
  · rw [if_pos hcolon, parts?_colon hcolon, Option.bind_map]
    rfl
  · rw [if_neg hcolon]
    cases hsimple : simple? source token rest with
    | none => exact parts?_none hcombinator hsimple hwhitespace hcomment hcolon
    | some simple => exact parts?_simple hsimple

theorem partsFrom_append {nested : List Token -> Checked (Option Node)} {rest : List Token}
    (hnested : forall inner, inner.length < rest.length -> nested inner = .ok (list? source inner))
    (front : List Token) (parts : List Node) (gap : Option Token) :
    partsFrom source nested (front ++ rest) parts gap front.length =
      .ok (parts? source parts gap rest) := by
  induction hlength : rest.length using Nat.strong_induction_on
    generalizing front rest parts gap with
  | _ length ih =>
      cases rest with
      | nil =>
          rw [partsFrom, dif_neg (by simp), parts?]
          rfl
      | cons token rest =>
          -- One token further the loop goes on behind `front ++ [token]`.
          have hnext : forall parts gap,
              partsFrom source nested (front ++ token :: rest) parts gap (front.length + 1) =
                .ok (parts? source parts gap rest) := by
            intro parts gap
            have hrest := ih rest.length (hlength ▸ Nat.lt_succ_self _)
              (fun inner hinner => hnested inner (Nat.lt_succ_of_lt hinner)) (front ++ [token])
              parts gap rfl
            rwa [List.append_assoc, List.length_append] at hrest
          rw [partsFrom, dif_pos (by simp), tokenAt_append, ok_bind]
          split
          · rename_i hkind
            rw [parts?_whitespace hkind]
            exact hnext _ _
          · rename_i content hkind
            rw [parts?_comment hkind, startsTypeAt_behind]
            exact hnext _ _
          · rename_i hwhitespace hcomment
            cases hcombinator : combinator? token with
            | some name =>
                rw [parts?_combinator hcombinator]
                dsimp only
                split
                · rfl
                · exact hnext _ _
            | none =>
                have hfinds := simpleAt_finds
                  (fun inner hinner => hnested inner (Nat.lt_succ_of_lt hinner)) front token
                rw [parts?_operand hwhitespace hcomment hcombinator]
                generalize operand? source token rest = found at hfinds ⊢
                generalize simpleAt source nested (front ++ token :: rest) front.length = checked
                  at hfinds ⊢
                cases hfinds with
                | none => rfl
                | @some simple passed hrun hne =>
                    have hpassed := List.length_pos_iff.mpr hne
                    have hlengths := congrArg List.length hrun
                    rw [List.length_append] at hlengths
                    have hmoves : front.length < (front ++ passed).length := by
                      rw [List.length_append]
                      omega
                    have hrest := ih simple.rest.length (by omega)
                      (fun inner hinner => hnested inner (by omega)) (front ++ passed)
                      (simple.node :: addDescendant source gap parts) none rfl
                    rw [List.append_assoc, ← hrun] at hrest
                    simp only [ok_bind, dif_pos hmoves, hrest]
                    rfl

theorem readSelectors_eq {nested : List Token -> Checked (Option Node)} {run : List Token}
    (hnested : forall inner, inner.length < run.length -> nested inner = .ok (list? source inner)) :
    readParts (readSelector source nested) (listParts run) =
      .ok ((listParts run).mapM fun part =>
        (parts? source [] none (Run.trim part)).map (ofPart source part)) := by
  apply readParts_eq
  · intro part _ hnil
    rw [hnil, parts?]
    rfl
  · intro part hmem _
    have hpart := Run.length_le_of_mem_splitTopLevel hmem
    have htrim := Run.trim_length_le part
    have htrim' := Run.trim_length_le run
    have hle : (Run.trim part).length ≤ run.length := by omega
    have hinside := fun inner hinner => hnested inner (Nat.lt_of_lt_of_le hinner hle)
    have hparts : partsFrom source nested (Run.trim part) [] none 0 =
        .ok (parts? source [] none (Run.trim part)) := partsFrom_append hinside [] [] none
    rw [readSelector, hparts]
    rfl

@[simp] theorem selectorList_eq (source : SourceName) (run : List Token) :
    selectorList source run = .ok (list? source run) := by
  induction hlength : run.length using Nat.strong_induction_on generalizing run with
  | _ length ih =>
      have hnested : forall inner, inner.length < run.length ->
          (if _h : inner.length < run.length then selectorList source inner
            else .error .descent) = .ok (list? source inner) := by
        intro inner hinner
        rw [dif_pos hinner]
        exact ih inner.length (hlength ▸ hinner) inner rfl
      have hselectors := readSelectors_eq hnested
      unfold listParts at hselectors
      rw [selectorList, list?_eq, trim_eq, ok_bind, splitTopLevel_eq, ok_bind, hselectors]
      rfl

@[simp] theorem rulePrelude_eq (source : SourceName) (run : List Token) :
    rulePrelude source run = .ok (prelude source run) := by
  rw [rulePrelude, trim_eq, ok_bind, selectorList_eq]
  rfl

end Cursor
end Stylesheet
