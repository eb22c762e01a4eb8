import Stylesheet.Selector

/-!
# Simple selectors step by step

What the readers of simple selectors return when they succeed: the grammar of what stands between
the brackets of an attribute selector, and one case for each kind of simple selector and each form
of a pseudo-class.
-/

namespace Stylesheet
namespace Selector

open Node Run

variable {source : SourceName}

/-! ## Attribute selectors -/

/-- The tokens of a matcher, and how it is written. -/
inductive IsMatcher : List Token -> String -> Prop
  | equals {equals : Token} (hequals : equals.kind = .delim '=') : IsMatcher [equals] "="
  | marked {mark equals : Token} {c : Char} (hmark : mark.kind = .delim c)
      (hc : c ∈ matcherMarks) (hequals : equals.kind = .delim '=') :
      IsMatcher [mark, equals] (String.ofList [c, '='])

/-- The token that an attribute is compared with, and what it stands for. -/
inductive IsCompared : Token -> Construct Node -> Prop
  | word {token : Token} {name : String} (hword : token.kind = .ident name) :
      IsCompared token (.identifier name)
  | quoted {token : Token} {quoted : String} (hquoted : token.kind = .string quoted) :
      IsCompared token (.string quoted)

/-- At most one word, behind what an attribute is compared with. -/
inductive IsFlagged : List Token -> Option String -> Prop
  | bare : IsFlagged [] none
  | word {token : Token} {flags : String} (hword : token.kind = .ident flags) :
      IsFlagged [token] (some flags)

/-- What stands between the brackets of an attribute selector but for trivia. -/
inductive IsAttribute (source : SourceName) : List Token -> Construct Node -> Prop
  | named {word : Token} {name : String} (hword : word.kind = .ident name) :
      IsAttribute source [word] (.attributeSelector name none none none)
  | compared {word token : Token} {marks flagged : List Token} {name matcher : String}
      {value : Construct Node} {flags : Option String} (hword : word.kind = .ident name)
      (hmarks : IsMatcher marks matcher) (hvalue : IsCompared token value)
      (hflags : IsFlagged flagged flags) :
      IsAttribute source (word :: (marks ++ token :: flagged))
        (.attributeSelector name (some matcher) (some (ofToken source token value)) flags)

variable {construct : Construct Node}

theorem matcher?_append {marks : List Token} {matcher : String} (h : IsMatcher marks matcher)
    (rest : List Token) : matcher? (marks ++ rest) = some (matcher, rest) := by
  cases h with
  | @equals equals hequals =>
      rcases equals with ⟨kind, text, start⟩
      subst hequals
      rfl
  | @marked mark equals c hmark hc hequals =>
      rcases mark with ⟨kind, text, start⟩
      rcases equals with ⟨kind', text', start'⟩
      subst hmark hequals
      simp only [matcherMarks, List.mem_cons, List.not_mem_nil, or_false] at hc
      rcases hc with rfl | rfl | rfl | rfl | rfl <;> rfl

theorem isMatcher_of_matcher? {comparison rest : List Token} {matcher : String}
    (h : matcher? comparison = some (matcher, rest)) :
    exists marks, comparison = marks ++ rest ∧ IsMatcher marks matcher := by
  unfold matcher? at h
  split at h
  · cases h
    exact ⟨[_], rfl, IsMatcher.equals rfl⟩
  · split at h
    · rename_i hmark
      cases h
      exact ⟨[_, _], rfl, IsMatcher.marked rfl (List.contains_iff_mem.mp hmark) rfl⟩
    · cases h
  · cases h

theorem attributeValue?_eq_some_iff {token : Token} {node : Node} :
    attributeValue? source token = some node <->
      exists value, IsCompared token value ∧ ofToken source token value = node := by
  constructor
  · intro h
    unfold attributeValue? at h
    split at h
    · cases h
      exact ⟨_, IsCompared.word ‹_›, rfl⟩
    · cases h
      exact ⟨_, IsCompared.quoted ‹_›, rfl⟩
    · cases h
  · rintro ⟨value, hvalue, rfl⟩
    cases hvalue with
    | word hword => rw [attributeValue?, hword]
    | quoted hquoted => rw [attributeValue?, hquoted]

theorem attributeFlags?_eq_some_iff {flagged : List Token} {flags : Option String} :
    attributeFlags? flagged = some flags <-> IsFlagged flagged flags := by
  constructor
  · intro h
    unfold attributeFlags? at h
    split at h
    · cases h
      exact IsFlagged.bare
    · cases h
      exact IsFlagged.word rfl
    · cases h
  · intro h
    cases h with
    | bare => rfl
    | @word token flags hword =>
        rcases token with ⟨kind, text, start⟩
        subst hword
        rfl

theorem attribute?_eq_some_iff {content : List Token} :
    attribute? source content = some construct <->
      IsAttribute source (significant content) construct := by
  unfold attribute?
  generalize significant content = tokens
  constructor
  · intro h
    split at h
    · cases h
      exact IsAttribute.named rfl
    · rename_i comparison _
      split at h
      · rename_i matcher token rest hmatcher
        split at h
        · rename_i value flags hvalue hflags
          cases h
          rcases isMatcher_of_matcher? hmatcher with ⟨marks, rfl, hmarks⟩
          rcases attributeValue?_eq_some_iff.mp hvalue with ⟨compared, hcompared, rfl⟩
          exact IsAttribute.compared rfl hmarks hcompared (attributeFlags?_eq_some_iff.mp hflags)
        · cases h
      · cases h
    · cases h
  · intro h
    cases h with
    | @named word name hword =>
        rcases word with ⟨kind, text, start⟩
        subst hword
        rfl
    | @compared word token marks flagged name matcher value flags hword hmarks hvalue hflags =>
        rcases word with ⟨kind, text, start⟩
        subst hword
        have hmatcher := matcher?_append hmarks (token :: flagged)
        have hvalue' : attributeValue? source token = some (ofToken source token value) :=
          attributeValue?_eq_some_iff.mpr ⟨value, hvalue, rfl⟩
        have hflags' := attributeFlags?_eq_some_iff.mpr hflags
        cases hcomparison : marks ++ token :: flagged with
        | nil => cases marks <;> cases hcomparison
        | cons first comparison =>
            rw [hcomparison] at hmatcher
            simp only [hmatcher, hvalue', hflags']

/-- What stands between the brackets of an attribute selector that has been read. -/
theorem isAttribute_of_attribute? {content : List Token} {construct : Construct Node}
    (h : attribute? source content = some construct) :
    exists tokens, significant content = tokens ∧ IsAttribute source tokens construct :=
  ⟨_, rfl, attribute?_eq_some_iff.mp h⟩

/-! ## Simple selectors without arguments -/

/-- A simple selector that begins with a token and no colon, and the rest of the run. -/
inductive ReadsSimple (source : SourceName) (token : Token) : List Token -> Simple -> Prop
  | typeName {name : String} {rest : List Token} (hkind : token.kind = .ident name)
      (hbar : startsBar rest = false) :
      ReadsSimple source token rest ⟨ofToken source token (.typeSelector name), rest⟩
  | universal {rest : List Token} (hkind : token.kind = .delim '*')
      (hbar : startsBar rest = false) :
      ReadsSimple source token rest ⟨ofToken source token (.typeSelector "*"), rest⟩
  | dotted {word : Token} {name : String} {after : List Token} (hkind : token.kind = .delim '.')
      (hword : word.kind = .ident name) :
      ReadsSimple source token (word :: after)
        ⟨spanning source [token, word] (.classSelector name), after⟩
  | hash {name : String} {rest : List Token} (hkind : token.kind = .hash name) :
      ReadsSimple source token rest ⟨ofToken source token (.idSelector name), rest⟩
  | bracketed {closer : Token} {rest content after : List Token} {construct : Construct Node}
      (hkind : token.kind = .leftBracket)
      (hgroup : splitGroup? 0 rest = some ⟨content, closer, after⟩)
      (hattribute : attribute? source content = some construct) :
      ReadsSimple source token rest
        ⟨spanning source (token :: content ++ [closer]) construct, after⟩

theorem type?_eq_some {token : Token} {name : String} {rest : List Token} {simple : Simple}
    (h : type? source token name rest = some simple) :
    startsBar rest = false ∧ simple = ⟨ofToken source token (.typeSelector name), rest⟩ := by
  unfold type? at h
  split at h
  · cases h
  · rename_i hbar
    cases h
    exact ⟨Bool.eq_false_iff.mpr hbar, rfl⟩

theorem readsSimple_of_simple? {token : Token} {rest : List Token} {simple : Simple}
    (h : simple? source token rest = some simple) : ReadsSimple source token rest simple := by
  unfold simple? at h
  split at h <;> rename_i hkind
  · rcases type?_eq_some h with ⟨hbar, rfl⟩
    exact ReadsSimple.typeName hkind hbar
  · rcases type?_eq_some h with ⟨hbar, rfl⟩
    exact ReadsSimple.universal hkind hbar
  · split at h
    · split at h
      · rename_i hword
        cases h
        exact ReadsSimple.dotted hkind hword
      · cases h
    · cases h
  · cases h
    exact ReadsSimple.hash hkind
  · split at h
    · rename_i hgroup
      rcases Option.map_eq_some_iff.mp h with ⟨construct, hattribute, rfl⟩
      exact ReadsSimple.bracketed hkind hgroup hattribute
    · cases h
  · cases h

/-! ## Pseudo-classes and pseudo-elements -/

/-- A name behind the colons that have been read, with or without arguments. -/
inductive ReadsName (colons : List Token) (isElement : Bool) : List Token -> Pseudo -> Prop
  | word {word : Token} {name : String} {rest : List Token} (hkind : word.kind = .ident name) :
      ReadsName colons isElement (word :: rest) ⟨colons ++ [word], isElement, name, none, rest⟩
  | called {opener closer : Token} {name : String} {rest content after : List Token}
      (hkind : opener.kind = .function name)
      (hgroup : splitGroup? 0 rest = some ⟨content, closer, after⟩) :
      ReadsName colons isElement (opener :: rest)
        ⟨colons ++ opener :: content ++ [closer], isElement, name, some content, after⟩

/-- A pseudo-class or pseudo-element behind its first colon. -/
inductive ReadsPseudo (colon : Token) : List Token -> Pseudo -> Prop
  | pseudoClass {rest : List Token} {pseudo : Pseudo}
      (hname : ReadsName [colon] false rest pseudo) : ReadsPseudo colon rest pseudo
  | pseudoElement {second : Token} {rest : List Token} {pseudo : Pseudo}
      (hsecond : second.kind = .colon) (hname : ReadsName [colon, second] true rest pseudo) :
      ReadsPseudo colon (second :: rest) pseudo

theorem readsName_of_pseudoName? {colons run : List Token} {isElement : Bool} {pseudo : Pseudo}
    (h : pseudoName? colons isElement run = some pseudo) :
    ReadsName colons isElement run pseudo := by
  unfold pseudoName? at h
  split at h
  · cases h
  · split at h <;> rename_i hkind
    · cases h
      exact ReadsName.word hkind
    · split at h
      · rename_i hgroup
        cases h
        exact ReadsName.called hkind hgroup
      · cases h
    · cases h

theorem readsPseudo_of_pseudo? {colon : Token} {rest : List Token} {pseudo : Pseudo}
    (h : pseudo? colon rest = some pseudo) : ReadsPseudo colon rest pseudo := by
  unfold pseudo? at h
  split at h
  · split at h
    · rename_i hsecond
      exact ReadsPseudo.pseudoElement hsecond (readsName_of_pseudoName? h)
    · exact ReadsPseudo.pseudoClass (readsName_of_pseudoName? h)
  · cases h

/-! ## Arguments -/

theorem word?_eq_some {run : List Token} {node : Node} (h : word? source run = some node) :
    exists word name, run = [word] ∧ word.kind = .ident name ∧
      node = ofToken source word (.identifier name) := by
  unfold word? at h
  split at h
  · split at h
    · rename_i hkind
      cases h
      exact ⟨_, _, rfl, hkind, rfl⟩
    · cases h
  · cases h

end Selector
end Stylesheet
