import Stylesheet.Proofs.Selector.Grammar

/-!
# The grammar of complex selectors

A selector is read token by token, with the parts read so far and a token that may stand for the
descendant combinator.  The grammar knows nothing of that state: it cuts a run into parts, and says
which parts may stand beside one another and what becomes of the trivia between them.  Main
statement: the runs that are read as selectors are those of the grammar, and so are the selectors.
-/

namespace Stylesheet
namespace Selector

open Node Run

/-! ## Parts -/

/-- A part of a selector: a simple selector, a combinator, or trivia. -/
inductive Part where
  | trivia (token : Token)
  | combinator (token : Token) (name : String)
  | simple (run : List Token) (construct : Construct Node)

namespace Part

def isTrivia : Part -> Bool
  | trivia _ => true
  | _ => false

def isCombinator : Part -> Bool
  | combinator .. => true
  | _ => false

def isSimple : Part -> Bool
  | simple .. => true
  | _ => false

end Part

/-- A run that is cut into parts. -/
inductive AreParts (source : SourceName) : List Token -> List Part -> Prop
  | nil : AreParts source [] []
  | trivia {token : Token} {rest : List Token} {parts : List Part}
      (htrivia : token.isTrivia = true) (hrest : AreParts source rest parts) :
      AreParts source (token :: rest) (.trivia token :: parts)
  | combinator {token : Token} {c : Char} {rest : List Token} {parts : List Part}
      (htoken : token.kind = .delim c) (hc : c ∈ ['>', '+', '~'])
      (hrest : AreParts source rest parts) :
      AreParts source (token :: rest) (.combinator token (String.singleton c) :: parts)
  | simple {run rest : List Token} {construct : Construct Node} {parts : List Part}
      (hsimple : IsSimple source rest run construct) (hrest : AreParts source rest parts) :
      AreParts source (run ++ rest) (.simple run construct :: parts)

/--
The parts of a selector behind one before them, if there is one: two combinators have a simple
selector between them, and a simple selector comes last.
-/
structure AreJoined (before : Option Part) (parts : List Part) : Prop where
  apart : (before.toList ++ parts.filter (!·.isTrivia)).IsChain fun left right =>
    left.isCombinator = true -> right.isCombinator = false
  ends : (before.toList ++ parts.filter (!·.isTrivia)).getLast?.any Part.isSimple = true

/-! ## Nodes -/

/-- Whether a row of trivia ends in a comment. -/
def endsInComment (trivia : List Token) : Bool :=
  trivia.getLast?.any fun token => token.isTrivia && token.kind != .whitespace

/--
The token that stands for the descendant combinator in a row of trivia in front of a simple
selector: a comment directly before the name of a type, or else the last whitespace.
-/
def separator? (trivia behind : List Token) : Option Token :=
  if endsInComment trivia && startsType behind then trivia.getLast?
  else (trivia.filter (·.kind == .whitespace)).getLast?

/--
The nodes of parts, in their order, with the descendant combinators between them.  The trivia since
the last part is known when that part is a simple selector.
-/
def nodesBehind (source : SourceName) (passed : Option (List Token)) : List Part -> List Node
  | [] => []
  | .trivia token :: rest => nodesBehind source (passed.map (· ++ [token])) rest
  | .combinator token name :: rest =>
      ofToken source token (.combinator name) :: nodesBehind source none rest
  | .simple run construct :: rest =>
      addDescendant source (passed.bind (separator? · run)) [] ++
        spanning source run construct :: nodesBehind source (some []) rest

variable {source : SourceName}

theorem separator?_whitespace {token : Token} (h : token.kind = .whitespace)
    (trivia behind : List Token) : separator? (trivia ++ [token]) behind = some token := by
  simp [separator?, endsInComment, h]

theorem separator?_comment {token : Token} {content : String} (h : token.kind = .comment content)
    (trivia behind : List Token) :
    separator? (trivia ++ [token]) behind =
      if startsType behind then some token
      else (trivia.filter (·.kind == .whitespace)).getLast? := by
  have htrivia : token.isTrivia = true := congrArg TokenKind.isTrivia h
  simp [separator?, endsInComment, h, htrivia]

theorem separator?_of_not_startsType {behind : List Token} (h : startsType behind = false)
    (trivia : List Token) :
    separator? trivia behind = (trivia.filter (·.kind == .whitespace)).getLast? := by
  simp [separator?, h]

theorem startsType_cons (token : Token) (rest behind : List Token) :
    startsType (token :: rest) = startsType (token :: behind) := by
  rcases token with ⟨kind, text, start⟩
  cases kind with
  | delim c =>
      by_cases hc : c = '*'
      · subst hc
        rfl
      · simp [startsType, hc]
  | _ => rfl

theorem separator?_append {run : List Token} (h : run ≠ []) (trivia behind : List Token) :
    separator? trivia (run ++ behind) = separator? trivia run := by
  cases run with
  | nil => exact absurd rfl h
  | cons token rest =>
      rw [separator?, separator?, List.cons_append, startsType_cons token (rest ++ behind) rest]

/-- Trivia stands for the descendant combinator when it holds whitespace or ends in a comment. -/
theorem isSome_separator? (trivia behind : List Token) :
    (separator? trivia behind).isSome = true <->
      (exists token, token ∈ trivia ∧ token.kind = .whitespace) ∨
        endsInComment trivia = true ∧ startsType behind = true := by
  unfold separator?
  split
  · rename_i h
    rw [Bool.and_eq_true] at h
    refine iff_of_true ?_ (Or.inr h)
    rw [endsInComment] at h
    cases hlast : trivia.getLast? with
    | none =>
        rw [hlast] at h
        cases h.left
    | some token => rfl
  · rename_i h
    rw [Bool.and_eq_true] at h
    rw [or_iff_left h, List.getLast?_isSome, ne_eq, List.filter_eq_nil_iff]
    simp

/-! ## Parts beside one another -/

section Joined

variable {before : Option Part} {part : Part} {parts : List Part}

theorem areJoined_nil : AreJoined before [] <-> before.any Part.isSimple = true := by
  constructor
  · intro h
    have hends := h.ends
    cases before with
    | none => cases hends
    | some part => exact hends
  · intro h
    cases before with
    | none => cases h
    | some part => exact ⟨List.IsChain.singleton part, h⟩

theorem areJoined_trivia (token : Token) :
    AreJoined before (.trivia token :: parts) <-> AreJoined before parts :=
  ⟨fun h => ⟨h.apart, h.ends⟩, fun h => ⟨h.apart, h.ends⟩⟩

theorem areJoined_cons (h : part.isTrivia = false) :
    AreJoined before (part :: parts) <->
      (before.any Part.isCombinator = true -> part.isCombinator = false) ∧
        AreJoined (some part) parts := by
  have hfilter : (part :: parts).filter (!·.isTrivia) = part :: parts.filter (!·.isTrivia) :=
    List.filter_cons_of_pos (by rw [h]; rfl)
  cases before with
  | none =>
      constructor
      · rintro ⟨hapart, hends⟩
        rw [hfilter] at hapart hends
        exact ⟨Bool.noConfusion, hapart, hends⟩
      · rintro ⟨_, hapart, hends⟩
        constructor
        · rw [hfilter]
          exact hapart
        · rw [hfilter]
          exact hends
  | some first =>
      constructor
      · rintro ⟨hapart, hends⟩
        rw [hfilter] at hapart hends
        rcases List.isChain_cons_cons.mp hapart with ⟨hfirst, hapart⟩
        exact ⟨hfirst, hapart, hends⟩
      · rintro ⟨hfirst, hapart, hends⟩
        constructor
        · rw [hfilter]
          exact List.isChain_cons_cons.mpr ⟨hfirst, hapart⟩
        · rw [hfilter]
          exact hends

end Joined

/-- The last part that has been read is the last of the nodes that have been made. -/
structure Agrees (before : Option Part) (earlier : List Node) : Prop where
  simple : endsSimple earlier = before.any Part.isSimple
  combinator : endsCombinator earlier = before.any Part.isCombinator

theorem agrees_none : Agrees none [] :=
  ⟨rfl, rfl⟩

theorem agrees_combinator (source : SourceName) (token : Token) (name : String)
    (earlier : List Node) :
    Agrees (some (.combinator token name)) (ofToken source token (.combinator name) :: earlier) :=
  ⟨rfl, rfl⟩

theorem agrees_simple {node : Node} (h : node.isCombinator = false) (run : List Token)
    (construct : Construct Node) (earlier : List Node) :
    Agrees (some (.simple run construct)) (node :: earlier) := by
  constructor
  · rw [endsSimple, h]
    rfl
  · exact h

/-! ## What is read is made of parts -/

/-- What is left of a selector is made of parts that go on with those read before. -/
def Reading.HasParts (source : SourceName) : Reading -> Prop
  | .parts earlier _ run _ => forall before, Agrees before earlier ->
      exists parts, AreParts source run parts ∧ AreJoined before parts
  | _ => True

theorem Reads.hasParts {reading : Reading} (h : Reads source reading) :
    reading.HasParts source := by
  induction h with
  | done hends =>
      intro before hagrees
      exact ⟨[], AreParts.nil, areJoined_nil.mpr (hagrees.simple ▸ hends)⟩
  | whitespace hkind hrest ih =>
      intro before hagrees
      rcases ih before hagrees with ⟨parts, hparts, hjoined⟩
      have htrivia : Token.isTrivia _ = true := congrArg TokenKind.isTrivia hkind
      exact ⟨_, AreParts.trivia htrivia hparts, (areJoined_trivia _).mpr hjoined⟩
  | comment hkind hrest ih =>
      intro before hagrees
      rcases ih before hagrees with ⟨parts, hparts, hjoined⟩
      have htrivia : Token.isTrivia _ = true := congrArg TokenKind.isTrivia hkind
      exact ⟨_, AreParts.trivia htrivia hparts, (areJoined_trivia _).mpr hjoined⟩
  | @bare earlier nodes gap token rest pseudo hkind hpseudo harguments hrest ih =>
      intro before hagrees
      rcases exists_isSimple_of_pseudo? hkind hpseudo with ⟨run, construct, hrun, hsimple⟩
      rcases ih (some (.simple run construct)) (agrees_simple (isCombinator_construct ..) ..) with
        ⟨parts, hparts, hjoined⟩
      rw [hrun]
      exact ⟨_, AreParts.simple hsimple hparts, (areJoined_cons rfl).mpr ⟨fun _ => rfl, hjoined⟩⟩
  | @called earlier nodes gap token rest arguments pseudo child hkind hpseudo harguments hchild
      hrest ihchild ih =>
      intro before hagrees
      rcases exists_isSimple_of_pseudo? hkind hpseudo with ⟨run, construct, hrun, hsimple⟩
      rcases ih (some (.simple run construct)) (agrees_simple (isCombinator_construct ..) ..) with
        ⟨parts, hparts, hjoined⟩
      rw [hrun]
      exact ⟨_, AreParts.simple hsimple hparts, (areJoined_cons rfl).mpr ⟨fun _ => rfl, hjoined⟩⟩
  | @combinator earlier nodes gap token name rest hname hends hrest ih =>
      intro before hagrees
      rcases combinator?_eq_some_iff.mp hname with ⟨c, hc, hkind, rfl⟩
      rcases ih (some (.combinator token (String.singleton c))) (agrees_combinator ..) with
        ⟨parts, hparts, hjoined⟩
      refine ⟨_, AreParts.combinator hkind hc hparts, (areJoined_cons rfl).mpr ⟨?_, hjoined⟩⟩
      rw [← hagrees.combinator, hends]
      exact Bool.noConfusion
  | @simple earlier nodes gap token rest simple hsimple hrest ih =>
      intro before hagrees
      rcases exists_isSimple_of_simple? hsimple with ⟨run, construct, hrun, hsimple, hnode⟩
      rw [hnode] at ih
      rcases ih (some (.simple run construct)) (agrees_simple hsimple.not_isCombinator ..) with
        ⟨parts, hparts, hjoined⟩
      rw [hrun]
      exact ⟨_, AreParts.simple hsimple hparts, (areJoined_cons rfl).mpr ⟨fun _ => rfl, hjoined⟩⟩
  | _ => trivial

/-! ## Parts are read -/

section Gap

variable {earlier : List Node} {passed : Option (List Token)} {token : Token} {rest : List Token}

theorem gap_whitespace (hkind : token.kind = .whitespace)
    (hpassed : endsSimple earlier = passed.isSome) :
    (if endsSimple earlier then some token else passed.bind (separator? · (token :: rest))) =
      (passed.map (· ++ [token])).bind (separator? · rest) := by
  rw [hpassed]
  cases passed with
  | none => rfl
  | some trivia => exact (separator?_whitespace hkind trivia rest).symm

theorem gap_comment {content : String} (hkind : token.kind = .comment content)
    (hpassed : endsSimple earlier = passed.isSome) :
    (if endsSimple earlier && startsType rest then some token
      else passed.bind (separator? · (token :: rest))) =
      (passed.map (· ++ [token])).bind (separator? · rest) := by
  rw [hpassed]
  cases passed with
  | none => rfl
  | some trivia =>
      have htoken : startsType (token :: rest) = false := by
        rcases token with ⟨kind, text, start⟩
        subst hkind
        rfl
      have hcomment := separator?_comment hkind trivia rest
      rw [← separator?_of_not_startsType htoken] at hcomment
      exact hcomment.symm

end Gap

theorem AreParts.parts? {run : List Token} {parts : List Part} (h : AreParts source run parts)
    {before : Option Part} {earlier : List Node} (passed : Option (List Token))
    (hagrees : Agrees before earlier) (hpassed : endsSimple earlier = passed.isSome)
    (hjoined : AreJoined before parts) :
    parts? source earlier (passed.bind (separator? · run)) run =
      some (earlier.reverse ++ nodesBehind source passed parts) := by
  induction h generalizing before earlier passed with
  | nil =>
      rw [Selector.parts?, hagrees.simple, areJoined_nil.mp hjoined, if_pos rfl, nodesBehind,
        List.append_nil]
  | @trivia token rest parts htrivia hrest ih =>
      have hpassed' : endsSimple earlier = (passed.map (· ++ [token])).isSome := by
        rw [hpassed, Option.isSome_map]
      have hread := ih _ hagrees hpassed' ((areJoined_trivia token).mp hjoined)
      rw [nodesBehind, ← hread]
      cases hkind : token.kind with
      | whitespace => rw [parts?_whitespace hkind, gap_whitespace hkind hpassed]
      | comment content => rw [parts?_comment hkind, gap_comment hkind hpassed]
      | _ =>
          rw [Token.isTrivia, hkind] at htrivia
          cases htrivia
  | @combinator token c rest parts htoken hc hrest ih =>
      rcases (areJoined_cons rfl).mp hjoined with ⟨hfirst, hjoined⟩
      have hends : endsCombinator earlier = false := by
        rw [hagrees.combinator, ← Bool.not_eq_true]
        intro hbefore
        cases hfirst hbefore
      have hname := combinator?_eq_some_iff.mpr ⟨c, hc, htoken, rfl⟩
      have hread := ih none (agrees_combinator source token _ earlier) rfl hjoined
      rw [List.reverse_cons, List.append_assoc] at hread
      rw [parts?_combinator hname, hends, if_neg Bool.false_ne_true, nodesBehind]
      exact hread
  | @simple run rest construct parts hsimple hrest ih =>
      rcases (areJoined_cons rfl).mp hjoined with ⟨_, hjoined⟩
      have hgap : passed.bind (separator? · (run ++ rest)) = passed.bind (separator? · run) := by
        cases passed with
        | none => rfl
        | some trivia => exact separator?_append hsimple.ne_nil trivia rest
      have hcombinator := hsimple.not_isCombinator
      have hlast := agrees_simple hcombinator run construct
        (addDescendant source (passed.bind (separator? · run)) earlier)
      have hread := ih (some []) hlast hlast.simple hjoined
      rw [List.reverse_cons, reverse_addDescendant, List.append_assoc,
        List.append_assoc] at hread
      rw [hgap, hsimple.parts?, nodesBehind]
      exact hread

/--
A run is read as a selector exactly when it is cut into parts of which a simple selector comes last
and no two combinators come one behind the other.  Its children are the nodes of these parts, with
the descendant combinator where whitespace, or a comment before the name of a type, is all that
stands between two simple selectors.
-/
theorem selector?_eq_some_iff {run : List Token} {node : Node} :
    selector? source run = some node <->
      exists parts, AreParts source run parts ∧ AreJoined none parts ∧
        node = spanning source run (.selector (nodesBehind source none parts)) := by
  constructor
  · intro h
    rcases Option.map_eq_some_iff.mp h with ⟨nodes, hnodes, rfl⟩
    rcases ((reads source).2.1 [] none run nodes hnodes).hasParts none agrees_none with
      ⟨parts, hparts, hjoined⟩
    have hread := hparts.parts? none agrees_none rfl hjoined
    rw [Option.bind_none, hnodes] at hread
    rw [Option.some.inj hread]
    exact ⟨parts, hparts, hjoined, rfl⟩
  · rintro ⟨parts, hparts, hjoined, rfl⟩
    have hread := hparts.parts? none agrees_none rfl hjoined
    rw [Option.bind_none] at hread
    rw [selector?, hread]
    rfl

/-- A list of selectors is read part by part, each part as a selector. -/
theorem list?_eq_selector? (source : SourceName) (run : List Token) :
    list? source run =
      ((listParts run).mapM fun part => selector? source (trim part)).map fun selectors =>
        spanning source (trim run) (.selectorList selectors) :=
  list?_eq source run

end Selector
end Stylesheet
