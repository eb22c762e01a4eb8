import Stylesheet.AnPlusB
import Stylesheet.Node.OverRun

/-!
# Selectors

A selector is a row of simple selectors with combinators between them.  Whitespace
between two simple selectors is the descendant combinator, and so is a comment before a
type selector, where the two names would otherwise run into each other.  A run that is
no list of selectors is kept as raw text, and so are arguments that are not what their
pseudo-class asks for.
-/

namespace Stylesheet
namespace Selector

/-! ## Attribute selectors -/

/-- The characters that an equals sign may follow in a matcher. -/
def matcherMarks : List Char :=
  ['~', '|', '^', '$', '*']

/-- The matcher at the front of a run, and what follows. -/
def matcher? : List Token -> Option (String × List Token)
  | ⟨.delim '=', _, _⟩ :: rest => some ("=", rest)
  | ⟨.delim mark, _, _⟩ :: ⟨.delim '=', _, _⟩ :: rest =>
      if matcherMarks.contains mark then some (String.ofList [mark, '='], rest) else none
  | _ => none

/-- The value that an attribute is compared with. -/
def attributeValue? (source : SourceName) (token : Token) : Option Node :=
  match token.kind with
  | .ident name => some (Node.ofToken source token (.identifier name))
  | .string quoted => some (Node.ofToken source token (.string quoted))
  | _ => none

/-- The flags behind the value of an attribute, which end its selector. -/
def attributeFlags? : List Token -> Option (Option String)
  | [] => some none
  | [⟨.ident flags, _, _⟩] => some (some flags)
  | _ => none

/-- The construct of an attribute selector, read from what stands between its brackets. -/
def attribute? (source : SourceName) (content : List Token) : Option (Construct Node) :=
  match Run.significant content with
  | [⟨.ident name, _, _⟩] => some (.attributeSelector name none none none)
  | ⟨.ident name, _, _⟩ :: comparison =>
      match matcher? comparison with
      | some (matcher, token :: rest) =>
          match attributeValue? source token, attributeFlags? rest with
          | some value, some flags =>
              some (.attributeSelector name (some matcher) (some value) flags)
          | _, _ => none
      | _ => none
  | _ => none

/-! ## Simple selectors without arguments -/

/-- A simple selector at the front of a run, and what follows. -/
structure Simple where
  node : Node
  rest : List Token

/-- Whether a run begins with the bar behind the prefix of a name. -/
def startsBar : List Token -> Bool
  | ⟨.delim '|', _, _⟩ :: _ => true
  | _ => false

/-- Whether a run begins with a type selector. -/
def startsType : List Token -> Bool
  | ⟨.ident _, _, _⟩ :: _ => true
  | ⟨.delim '*', _, _⟩ :: _ => true
  | _ => false

/-- A type selector whose token has been read; a name with a prefix is not modelled. -/
def type? (source : SourceName) (token : Token) (name : String) (rest : List Token) :
    Option Simple :=
  if startsBar rest then none
  else some ⟨Node.ofToken source token (.typeSelector name), rest⟩

/-- The simple selector that begins with a token, unless it begins with a colon. -/
def simple? (source : SourceName) (token : Token) (rest : List Token) : Option Simple :=
  match token.kind with
  | .ident name => type? source token name rest
  | .delim '*' => type? source token "*" rest
  | .delim '.' =>
      match rest with
      | word :: after =>
          match word.kind with
          | .ident name => some ⟨Node.spanning source [token, word] (.classSelector name), after⟩
          | _ => none
      | [] => none
  | .hash name => some ⟨Node.ofToken source token (.idSelector name), rest⟩
  | .leftBracket =>
      match Run.splitGroup? 0 rest with
      | some ⟨content, closer, after⟩ =>
          (attribute? source content).map fun construct =>
            ⟨Node.spanning source (token :: content ++ [closer]) construct, after⟩
      | none => none
  | _ => none

theorem simple?_rest_length_le {source : SourceName} {token : Token} {rest : List Token}
    {simple : Simple} (h : simple? source token rest = some simple) :
    simple.rest.length ≤ rest.length := by
  have htype : ∀ name, type? source token name rest = some simple ->
      simple.rest.length ≤ rest.length := by
    intro name h
    unfold type? at h
    split at h
    · cases h
    · cases h
      exact Nat.le_refl _
  unfold simple? at h
  split at h
  · exact htype _ h
  · exact htype _ h
  · split at h
    · split at h
      · cases h
        simp
      · cases h
    · cases h
  · cases h
    exact Nat.le_refl _
  · split at h
    · rename_i hgroup
      obtain ⟨construct, _, rfl⟩ := Option.map_eq_some_iff.mp h
      exact Nat.le_of_lt (Run.splitGroup?_lengths hgroup).2
    · cases h
  · cases h

/-! ## Pseudo-classes and pseudo-elements -/

/-- A pseudo-class or pseudo-element: its tokens, what it consists of, and what follows. -/
structure Pseudo where
  run : List Token
  isElement : Bool
  name : String
  arguments : Option (List Token)
  rest : List Token

/-- A name, or a name with arguments, behind the colons that have been read. -/
def pseudoName? (colons : List Token) (isElement : Bool) : List Token -> Option Pseudo
  | [] => none
  | token :: rest =>
      match token.kind with
      | .ident name => some ⟨colons ++ [token], isElement, name, none, rest⟩
      | .function name =>
          match Run.splitGroup? 0 rest with
          | some ⟨content, closer, after⟩ =>
              some ⟨colons ++ token :: content ++ [closer], isElement, name, some content, after⟩
          | none => none
      | _ => none

/-- A pseudo-class or pseudo-element behind its first colon. -/
def pseudo? (colon : Token) : List Token -> Option Pseudo
  | second :: rest =>
      if second.kind = .colon then
        pseudoName? [colon, second] true rest
      else
        pseudoName? [colon] false (second :: rest)
  | [] => none

/-- The construct of a pseudo-class or pseudo-element. -/
def Pseudo.construct (pseudo : Pseudo) (children : Option (List Node)) : Construct Node :=
  if pseudo.isElement then .pseudoElement pseudo.name children
  else .pseudoClass pseudo.name children

theorem pseudoName?_lengths {colons : List Token} {isElement : Bool} {run : List Token}
    {pseudo : Pseudo} (h : pseudoName? colons isElement run = some pseudo) :
    pseudo.rest.length < run.length ∧
      ∀ arguments, pseudo.arguments = some arguments -> arguments.length < run.length := by
  unfold pseudoName? at h
  split at h
  · cases h
  · split at h
    · cases h
      simp
    · split at h
      · rename_i hgroup
        have hlengths := Run.splitGroup?_lengths hgroup
        cases h
        simp only [List.length_cons, Option.some.injEq, forall_eq'] at hlengths ⊢
        omega
      · cases h
    · cases h

theorem pseudo?_lengths {colon : Token} {run : List Token} {pseudo : Pseudo}
    (h : pseudo? colon run = some pseudo) :
    pseudo.rest.length < run.length ∧
      ∀ arguments, pseudo.arguments = some arguments -> arguments.length < run.length := by
  unfold pseudo? at h
  split at h
  · split at h
    · obtain ⟨hrest, harguments⟩ := pseudoName?_lengths h
      refine ⟨?_, fun arguments heq => ?_⟩
      · simp
        omega
      · have := harguments arguments heq
        simp
        omega
    · exact pseudoName?_lengths h
  · cases h

/-! ## Arguments -/

/-- Pseudo-classes and pseudo-elements whose argument is a list of selectors. -/
def takesSelectors (name : String) : Bool :=
  ["not", "is", "where", "matches", "has", "-moz-any", "-webkit-any", "host",
    "host-context", "slotted", "cue", "current", "past", "future"].contains name.toLower

/-- Pseudo-classes whose argument is a position, possibly among given elements. -/
def takesPosition (name : String) : Bool :=
  ["nth-child", "nth-last-child", "nth-of-type", "nth-last-of-type", "nth-col",
    "nth-last-col"].contains name.toLower

/-- Pseudo-classes whose argument is one word. -/
def takesWord (name : String) : Bool :=
  ["lang", "dir"].contains name.toLower

/-- The node of a run that is one word. -/
def word? (source : SourceName) : List Token -> Option Node
  | [token] =>
      match token.kind with
      | .ident name => some (Node.ofToken source token (.identifier name))
      | _ => none
  | _ => none

/-- Whether a token is the word between a position and its selectors. -/
def isOf (token : Token) : Bool :=
  match token.kind with
  | .ident name => sameWord name "of"
  | _ => false

/-- Cuts a run at the first `of` behind whitespace, which stays with the first part. -/
def splitOf? : List Token -> Option (List Token × List Token)
  | space :: word :: rest =>
      if space.kind = .whitespace && isOf word then
        some ([space], rest)
      else
        (splitOf? (word :: rest)).map fun (before, after) => (space :: before, after)
  | _ => none

theorem splitOf?_length_lt {run before after : List Token}
    (h : splitOf? run = some (before, after)) : after.length < run.length := by
  fun_induction splitOf? run generalizing before after with
  | case1 space word rest =>
      cases h
      simp only [List.length_cons]
      omega
  | case2 space word rest _ ih =>
      obtain ⟨⟨front, back⟩, hinner, heq⟩ := Option.map_eq_some_iff.mp h
      cases heq
      have := ih hinner
      simp at this ⊢
      omega
  | case3 => cases h

/-- The construct of a position: one of two words, or the An+B notation. -/
def position? (run : List Token) : Option (Construct Node) :=
  let text := String.ofList ((Run.text run).toList.filter fun c => !Character.isBlank c)
  if sameWord text "odd" || sameWord text "even" then
    some (.identifier text)
  else
    (AnPlusB.parse? text).map fun ⟨a, b⟩ => .anPlusB a b

/-- A position with the selectors it counts among, which have been read. -/
def nth? (source : SourceName) (run formula : List Token) (selectors : Option Node) :
    Option Node :=
  (position? formula).map fun construct =>
    Node.spanning source run (.nth (Node.spanning source formula construct) selectors)

/-! ## Complex selectors -/

/-- Whether a token is a combinator that is written out. -/
def combinator? (token : Token) : Option String :=
  match token.kind with
  | .delim '>' => some ">"
  | .delim '+' => some "+"
  | .delim '~' => some "~"
  | _ => none

/-- Whether the latest part is a simple selector; the latest part comes first. -/
def endsSimple : List Node -> Bool
  | [] => false
  | last :: _ => !last.isCombinator

/-- Whether the latest part is a combinator; the latest part comes first. -/
def endsCombinator : List Node -> Bool
  | [] => false
  | last :: _ => last.isCombinator

/-- Adds the descendant combinator for a token that stands for one. -/
def addDescendant (source : SourceName) (gap : Option Token) (parts : List Node) : List Node :=
  match gap with
  | none => parts
  | some token => Node.ofToken source token (.combinator " ") :: parts

mutual

/-- A list of selectors between commas, if the run is one. -/
def list? (source : SourceName) (run : List Token) : Option Node :=
  let parts := (Run.splitTopLevel (· == .comma) 0 (Run.trim run)).attach
  let selectors := parts.mapM fun ⟨part, _h⟩ =>
    (parts? source [] none (Run.trim part)).map fun parts =>
      Node.spanning source (Run.trim part) (.selector parts)
  selectors.map fun selectors => Node.spanning source (Run.trim run) (.selectorList selectors)
termination_by 3 * run.length + 1
decreasing_by
  have h1 := Run.length_le_of_mem_splitTopLevel _h
  have h2 := Run.trim_length_le part
  have h3 := Run.trim_length_le run
  omega

/--
Reads the parts of a selector behind those read so far, the latest first, with the token
that stands for a descendant combinator if a simple selector follows.
-/
def parts? (source : SourceName) (parts : List Node) (gap : Option Token) :
    (run : List Token) -> Option (List Node)
  | [] => if endsSimple parts then some parts.reverse else none
  | token :: rest =>
      match token.kind with
      | .whitespace =>
          parts? source parts (if endsSimple parts then some token else gap) rest
      | .comment _ =>
          parts? source parts
            (if endsSimple parts && startsType rest then some token else gap) rest
      | .colon =>
          match _h : pseudo? token rest with
          | none => none
          | some pseudo =>
              let children :=
                match _h' : pseudo.arguments with
                | none => none
                | some arguments => some [argument source pseudo.name (Run.trim arguments)]
              let node := Node.spanning source pseudo.run (pseudo.construct children)
              parts? source (node :: addDescendant source gap parts) none pseudo.rest
      | _ =>
          match combinator? token with
          | some name =>
              if endsCombinator parts then
                none
              else
                let node := Node.ofToken source token (.combinator name)
                parts? source (node :: parts) none rest
          | none =>
              match _h : simple? source token rest with
              | none => none
              | some simple =>
                  parts? source (simple.node :: addDescendant source gap parts) none simple.rest
termination_by run => 3 * run.length
decreasing_by
  · simp only [List.length_cons]
    omega
  · simp only [List.length_cons]
    omega
  · have h1 := (pseudo?_lengths _h).2 arguments _h'
    have h2 := Run.trim_length_le arguments
    simp only [List.length_cons]
    omega
  · have h1 := (pseudo?_lengths _h).1
    simp only [List.length_cons]
    omega
  · simp only [List.length_cons]
    omega
  · have h1 := simple?_rest_length_le _h
    simp only [List.length_cons]
    omega

/-- The argument of a pseudo-class or pseudo-element of that name. -/
def argument (source : SourceName) (name : String) (run : List Token) : Node :=
  let modelled :=
    if takesSelectors name then
      list? source run
    else if takesPosition name then
      match _h : splitOf? run with
      | none => nth? source run run none
      | some (before, after) =>
          match list? source after with
          | none => none
          | some selectors => nth? source run (Run.trim before) (some selectors)
    else if takesWord name then
      word? source run
    else
      none
  modelled.getD (Node.rawRun source run)
termination_by 3 * run.length + 2
decreasing_by
  · omega
  · have h1 := splitOf?_length_lt _h
    omega

end

/-- A selector, if the run is one. -/
def selector? (source : SourceName) (run : List Token) : Option Node :=
  (parts? source [] none run).map fun parts => Node.spanning source run (.selector parts)

/-- The prelude of a rule: a list of selectors, or else the text as it is written. -/
def prelude (source : SourceName) (run : List Token) : Node :=
  (list? source (Run.trim run)).getD (Node.rawRun source (Run.trim run))

end Selector
end Stylesheet
