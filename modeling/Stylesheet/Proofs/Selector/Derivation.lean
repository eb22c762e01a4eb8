import Stylesheet.Proofs.Lists
import Stylesheet.Proofs.Selector.Simple

/-!
# Reading selectors as a derivation

Lists of selectors, the parts of one selector and the arguments of pseudo-classes are read by
functions that call each other.  `Selector.Reads` is one derivation for all three, so that a
fact about selectors is one induction with a case for each step of the readers.
-/

namespace Stylesheet
namespace Selector

/-! ## The readers step by step -/

/-- A selector over its part of a list. -/
def ofPart (source : SourceName) (part : List Token) (nodes : List Node) : Node :=
  Node.spanning source (Run.trim part) (.selector nodes)

/-- The parts of a list of selectors. -/
def listParts (run : List Token) : List (List Token) :=
  Run.splitTopLevel (· == .comma) 0 (Run.trim run)

theorem list?_eq (source : SourceName) (run : List Token) :
    list? source run =
      ((listParts run).mapM fun part =>
        (parts? source [] none (Run.trim part)).map (ofPart source part)).map fun selectors =>
          Node.spanning source (Run.trim run) (.selectorList selectors) := by
  rw [list?]
  simp only [List.mapM_subtype, List.unattach_attach]
  rfl

/-- The node of a pseudo-class or pseudo-element. -/
def Pseudo.node (source : SourceName) (pseudo : Pseudo) : Node :=
  Node.spanning source pseudo.run (pseudo.construct (pseudo.arguments.map fun arguments =>
    [argument source pseudo.name (Run.trim arguments)]))

theorem combinator?_eq_some_iff {token : Token} {name : String} :
    combinator? token = some name <->
      exists c, c ∈ ['>', '+', '~'] ∧ token.kind = .delim c ∧ String.singleton c = name := by
  unfold combinator?
  constructor
  · intro h
    split at h
    · cases h
      exact ⟨'>', by decide, ‹_›, rfl⟩
    · cases h
      exact ⟨'+', by decide, ‹_›, rfl⟩
    · cases h
      exact ⟨'~', by decide, ‹_›, rfl⟩
    · cases h
  · rintro ⟨c, hc, hkind, rfl⟩
    simp only [List.mem_cons, List.not_mem_nil, or_false] at hc
    rw [hkind]
    rcases hc with rfl | rfl | rfl <;> rfl

theorem isCombinator_construct (pseudo : Pseudo) (children : Option (List Node))
    (location : Option Location) :
    Node.isCombinator ⟨pseudo.construct children, location⟩ = false := by
  unfold Pseudo.construct
  split <;> rfl

theorem reverse_addDescendant (source : SourceName) (gap : Option Token) (earlier : List Node) :
    (addDescendant source gap earlier).reverse =
      earlier.reverse ++ addDescendant source gap [] := by
  cases gap with
  | none => exact (List.append_nil _).symm
  | some token => exact List.reverse_cons

section Steps

variable {source : SourceName} {earlier : List Node} {gap : Option Token} {token : Token}
  {rest : List Token}

theorem parts?_whitespace (hkind : token.kind = .whitespace) :
    parts? source earlier gap (token :: rest) =
      parts? source earlier (if endsSimple earlier then some token else gap) rest := by
  rw [parts?, hkind]

theorem parts?_comment {content : String} (hkind : token.kind = .comment content) :
    parts? source earlier gap (token :: rest) =
      parts? source earlier
        (if endsSimple earlier && startsType rest then some token else gap) rest := by
  rw [parts?, hkind]

theorem parts?_colon (hkind : token.kind = .colon) :
    parts? source earlier gap (token :: rest) =
      (pseudo? token rest).bind fun pseudo =>
        parts? source (pseudo.node source :: addDescendant source gap earlier) none
          pseudo.rest := by
  rw [parts?, hkind]
  simp only
  split
  · rename_i hpseudo
    rw [hpseudo]
    rfl
  · rename_i pseudo hpseudo
    rw [hpseudo, Option.bind_some]
    unfold Pseudo.node
    cases pseudo.arguments <;> rfl

theorem parts?_combinator {name : String} (hname : combinator? token = some name) :
    parts? source earlier gap (token :: rest) =
      if endsCombinator earlier then none
      else parts? source (Node.ofToken source token (.combinator name) :: earlier) none rest := by
  rcases combinator?_eq_some_iff.mp hname with ⟨c, _, hkind, _⟩
  rw [parts?, hkind]
  simp only [hname]

theorem parts?_simple {simple : Simple} (h : simple? source token rest = some simple) :
    parts? source earlier gap (token :: rest) =
      parts? source (simple.node :: addDescendant source gap earlier) none simple.rest := by
  have hcombinator : combinator? token = none := by
    unfold combinator?
    cases readsSimple_of_simple? h <;> simp only [‹token.kind = _›]
    all_goals rfl
  have hkind : token.kind ≠ .whitespace ∧ (forall content, token.kind ≠ .comment content) ∧
      token.kind ≠ .colon := by
    cases readsSimple_of_simple? h <;> simp [‹token.kind = _›]
  rcases hkind with ⟨hwhitespace, hcomment, hcolon⟩
  rw [parts?]
  split
  · exact absurd ‹_› hwhitespace
  · exact absurd ‹_› (hcomment _)
  · exact absurd ‹_› hcolon
  · simp only [hcombinator]
    split
    · rename_i hsimple
      rw [h] at hsimple
      cases hsimple
    · rename_i simple' hsimple
      rw [h] at hsimple
      cases hsimple
      rfl

theorem parts?_none (hcombinator : combinator? token = none)
    (hsimple : simple? source token rest = none) (hwhitespace : token.kind ≠ .whitespace)
    (hcomment : forall content, token.kind ≠ .comment content) (hcolon : token.kind ≠ .colon) :
    parts? source earlier gap (token :: rest) = none := by
  rw [parts?]
  split
  · exact absurd ‹_› hwhitespace
  · exact absurd ‹_› (hcomment _)
  · exact absurd ‹_› hcolon
  · simp only [hcombinator]
    split
    · rfl
    · rename_i simple hsome
      rw [hsimple] at hsome
      cases hsome

end Steps

/-- What stands for the descendant combinator is kept only behind a simple selector. -/
theorem endsSimple_of_if {earlier : List Node} {gap : Option Token} (token : Token) (stands : Bool)
    (h : gap ≠ none -> endsSimple earlier = true) :
    (if endsSimple earlier && stands then some token else gap) ≠ none ->
      endsSimple earlier = true := by
  intro hnone
  cases hends : endsSimple earlier with
  | true => rfl
  | false =>
      rw [hends, Bool.false_and, if_neg Bool.false_ne_true] at hnone
      exact hends ▸ h hnone

theorem argument_eq (source : SourceName) (name : String) (run : List Token) :
    argument source name run =
      (if takesSelectors name then
        list? source run
      else if takesPosition name then
        match splitOf? run with
        | none => nth? source run run none
        | some (before, after) =>
            (list? source after).bind fun selectors =>
              nth? source run (Run.trim before) (some selectors)
      else if takesWord name then
        word? source run
      else
        none).getD (Node.rawRun source run) := by
  rw [argument]
  congr 1
  split
  · rfl
  · split
    · split
      · rename_i hsplit
        rw [hsplit]
      · rename_i before after hsplit
        rw [hsplit]
        cases hlist : list? source after <;> simp [hlist]
    · rfl

/-! ## The derivation -/

/-- What is read: a list of selectors, the parts behind earlier ones, or an argument. -/
inductive Reading where
  | list (run : List Token) (node : Node)
  | parts (earlier : List Node) (gap : Option Token) (run : List Token) (nodes : List Node)
  | argument (name : String) (run : List Token) (node : Node)

/-- The readers read so. -/
inductive Reads (source : SourceName) : Reading -> Prop
  | list {run : List Token} {selectors : List (List Token × List Node)}
      (hparts : listParts run = selectors.map Prod.fst)
      (hselectors : forall selector, selector ∈ selectors ->
        Reads source (.parts [] none (Run.trim selector.1) selector.2)) :
      Reads source (.list run (Node.spanning source (Run.trim run)
        (.selectorList (selectors.map fun selector => ofPart source selector.1 selector.2))))
  | done {earlier : List Node} {gap : Option Token} (hends : endsSimple earlier = true) :
      Reads source (.parts earlier gap [] earlier.reverse)
  | whitespace {earlier nodes : List Node} {gap : Option Token} {token : Token}
      {rest : List Token} (hkind : token.kind = .whitespace)
      (hrest : Reads source
        (.parts earlier (if endsSimple earlier then some token else gap) rest nodes)) :
      Reads source (.parts earlier gap (token :: rest) nodes)
  | comment {earlier nodes : List Node} {gap : Option Token} {token : Token} {content : String}
      {rest : List Token} (hkind : token.kind = .comment content)
      (hrest : Reads source (.parts earlier
        (if endsSimple earlier && startsType rest then some token else gap) rest nodes)) :
      Reads source (.parts earlier gap (token :: rest) nodes)
  | bare {earlier nodes : List Node} {gap : Option Token} {token : Token} {rest : List Token}
      {pseudo : Pseudo} (hkind : token.kind = .colon) (hpseudo : pseudo? token rest = some pseudo)
      (harguments : pseudo.arguments = none)
      (hrest : Reads source (.parts
        (Node.spanning source pseudo.run (pseudo.construct none) ::
          addDescendant source gap earlier) none pseudo.rest nodes)) :
      Reads source (.parts earlier gap (token :: rest) nodes)
  | called {earlier nodes : List Node} {gap : Option Token} {token : Token}
      {rest arguments : List Token} {pseudo : Pseudo} {child : Node}
      (hkind : token.kind = .colon) (hpseudo : pseudo? token rest = some pseudo)
      (harguments : pseudo.arguments = some arguments)
      (hchild : Reads source (.argument pseudo.name (Run.trim arguments) child))
      (hrest : Reads source (.parts
        (Node.spanning source pseudo.run (pseudo.construct (some [child])) ::
          addDescendant source gap earlier) none pseudo.rest nodes)) :
      Reads source (.parts earlier gap (token :: rest) nodes)
  | combinator {earlier nodes : List Node} {gap : Option Token} {token : Token} {name : String}
      {rest : List Token} (hname : combinator? token = some name)
      (hends : endsCombinator earlier = false)
      (hrest : Reads source
        (.parts (Node.ofToken source token (.combinator name) :: earlier) none rest nodes)) :
      Reads source (.parts earlier gap (token :: rest) nodes)
  | simple {earlier nodes : List Node} {gap : Option Token} {token : Token} {rest : List Token}
      {simple : Simple} (hsimple : simple? source token rest = some simple)
      (hrest : Reads source
        (.parts (simple.node :: addDescendant source gap earlier) none simple.rest nodes)) :
      Reads source (.parts earlier gap (token :: rest) nodes)
  | selectors {name : String} {run : List Token} {node : Node}
      (htakes : takesSelectors name = true) (hlist : Reads source (.list run node)) :
      Reads source (.argument name run node)
  | position {name : String} {run : List Token} {node : Node}
      (htakes : takesSelectors name = false) (htakes' : takesPosition name = true)
      (hof : splitOf? run = none) (hnth : nth? source run run none = some node) :
      Reads source (.argument name run node)
  | positionOf {name : String} {run before after : List Token} {selectors node : Node}
      (htakes : takesSelectors name = false) (htakes' : takesPosition name = true)
      (hof : splitOf? run = some (before, after)) (hlist : Reads source (.list after selectors))
      (hnth : nth? source run (Run.trim before) (some selectors) = some node) :
      Reads source (.argument name run node)
  | word {name : String} {run : List Token} {node : Node}
      (htakes : takesSelectors name = false) (htakes' : takesPosition name = false)
      (htakes'' : takesWord name = true) (hword : word? source run = some node) :
      Reads source (.argument name run node)
  | raw {name : String} {run : List Token}
      (hraw : argument source name run = Node.rawRun source run) :
      Reads source (.argument name run (Node.rawRun source run))

theorem reads_list {source : SourceName} {run : List Token} {node : Node}
    (hparts : forall part, part ∈ listParts run -> forall nodes,
      parts? source [] none (Run.trim part) = some nodes ->
        Reads source (.parts [] none (Run.trim part) nodes))
    (h : list? source run = some node) : Reads source (.list run node) := by
  rw [list?_eq] at h
  rcases Option.map_eq_some_iff.mp h with ⟨nodes, hnodes, rfl⟩
  have hselectors : exists selectors : List (List Token × List Node),
      listParts run = selectors.map Prod.fst ∧
        nodes = selectors.map (fun selector => ofPart source selector.1 selector.2) ∧
        forall selector, selector ∈ selectors ->
          Reads source (.parts [] none (Run.trim selector.1) selector.2) := by
    have hall := mapM_eq_some_iff.mp hnodes
    generalize listParts run = parts at hall hparts
    clear h hnodes
    induction hall with
    | nil => exact ⟨[], rfl, rfl, fun _ h => absurd h List.not_mem_nil⟩
    | @cons part node parts later hfirst hrest ih =>
        rcases Option.map_eq_some_iff.mp hfirst with ⟨nodes, hnodes, rfl⟩
        rcases ih fun part hpart => hparts part (List.mem_cons_of_mem _ hpart) with
          ⟨selectors, rfl, rfl, hselectors⟩
        refine ⟨(part, nodes) :: selectors, rfl, rfl, ?_⟩
        intro selector hselector
        rcases List.mem_cons.mp hselector with rfl | hselector
        · exact hparts part List.mem_cons_self nodes hnodes
        · exact hselectors selector hselector
  rcases hselectors with ⟨selectors, hfst, rfl, hselectors⟩
  exact Reads.list hfst hselectors

theorem reads_argument {source : SourceName} {name : String} {run : List Token}
    (hlist : forall node, list? source run = some node -> Reads source (.list run node))
    (hafter : forall before after, splitOf? run = some (before, after) ->
      forall node, list? source after = some node -> Reads source (.list after node)) :
    Reads source (.argument name run (argument source name run)) := by
  have hraw : forall {modelled : Option Node},
      argument source name run = modelled.getD (Node.rawRun source run) -> modelled = none ->
        Reads source (.argument name run (argument source name run)) := by
    rintro modelled heq rfl
    rw [heq]
    exact Reads.raw heq
  have heq := argument_eq source name run
  split at heq
  · rename_i htakes
    cases hmodelled : list? source run with
    | none => exact hraw heq hmodelled
    | some node =>
        rw [heq, hmodelled]
        exact Reads.selectors htakes (hlist node hmodelled)
  rename_i htakes
  rw [Bool.not_eq_true] at htakes
  split at heq
  · rename_i htakes'
    split at heq
    · rename_i hof
      cases hmodelled : nth? source run run none with
      | none => exact hraw heq hmodelled
      | some node =>
          rw [heq, hmodelled]
          exact Reads.position htakes htakes' hof hmodelled
    · rename_i before after hof
      cases hselectors : list? source after with
      | none => exact hraw heq (by rw [hselectors]; rfl)
      | some selectors =>
          rw [hselectors, Option.bind_some] at heq
          cases hmodelled : nth? source run (Run.trim before) (some selectors) with
          | none => exact hraw heq hmodelled
          | some node =>
              rw [heq, hmodelled]
              exact Reads.positionOf htakes htakes' hof
                (hafter before after hof selectors hselectors) hmodelled
  rename_i htakes'
  rw [Bool.not_eq_true] at htakes'
  split at heq
  · rename_i htakes''
    cases hmodelled : word? source run with
    | none => exact hraw heq hmodelled
    | some node =>
        rw [heq, hmodelled]
        exact Reads.word htakes htakes' htakes'' hmodelled
  · exact hraw heq rfl

theorem reads (source : SourceName) :
    (forall run node, list? source run = some node -> Reads source (.list run node)) ∧
      (forall earlier gap run nodes, parts? source earlier gap run = some nodes ->
        Reads source (.parts earlier gap run nodes)) ∧
      forall name run, Reads source (.argument name run (argument source name run)) := by
  have hall := list?.mutual_induct source
    (fun run => forall node, list? source run = some node -> Reads source (.list run node))
    (fun earlier gap run => forall nodes, parts? source earlier gap run = some nodes ->
      Reads source (.parts earlier gap run nodes))
    (fun name run => Reads source (.argument name run (argument source name run)))
  apply hall
  · intro run hparts node h
    exact reads_list hparts h
  · intro earlier gap hends nodes h
    rw [parts?, if_pos hends] at h
    cases h
    exact Reads.done hends
  · intro earlier gap hends nodes h
    rw [parts?, if_neg hends] at h
    cases h
  · intro earlier gap token rest hkind ih nodes h
    rw [parts?_whitespace hkind] at h
    exact Reads.whitespace hkind (ih nodes h)
  · intro earlier gap token rest content hkind ih nodes h
    rw [parts?_comment hkind] at h
    exact Reads.comment hkind (ih nodes h)
  · intro earlier gap token rest hkind hpseudo nodes h
    rw [parts?_colon hkind, hpseudo] at h
    cases h
  · intro earlier gap token rest hkind pseudo hpseudo children node hchild ih nodes h
    rw [parts?_colon hkind, hpseudo, Option.bind_some] at h
    have hnode : node = pseudo.node source := by
      simp only [node, children, Pseudo.node]
      cases pseudo.arguments <;> rfl
    rw [hnode] at ih
    have hrest := ih nodes h
    unfold Pseudo.node at hrest
    cases harguments : pseudo.arguments with
    | none =>
        rw [harguments] at hrest
        exact Reads.bare hkind hpseudo harguments hrest
    | some arguments =>
        rw [harguments] at hrest
        exact Reads.called hkind hpseudo harguments (hchild arguments harguments) hrest
  · intro earlier gap token rest name hname hends _ _ _ nodes h
    rw [parts?_combinator hname, if_pos hends] at h
    cases h
  · intro earlier gap token rest name hname hends node _ _ _ ih nodes h
    rw [parts?_combinator hname, if_neg hends] at h
    exact Reads.combinator hname (Bool.not_eq_true _ ▸ hends) (ih nodes h)
  · intro earlier gap token rest hcombinator hsimple hwhitespace hcomment hcolon nodes h
    rw [parts?_none hcombinator hsimple hwhitespace hcomment hcolon] at h
    cases h
  · intro earlier gap token rest hcombinator simple hsimple _ _ _ ih nodes h
    rw [parts?_simple hsimple] at h
    exact Reads.simple hsimple (ih nodes h)
  · intro name run hlist hafter
    exact reads_argument hlist hafter

end Selector
end Stylesheet
