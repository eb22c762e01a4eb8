import Stylesheet.Proofs.Selector.Derivation
import Stylesheet.Proofs.Token.Balanced

/-!
# The grammar of simple selectors

A simple selector is a row of tokens, in front of what may not follow it directly.  Main statements:
each step of the reader passes a simple selector of the grammar and makes its node, and whatever
the reader takes for a simple selector is one of the grammar.
-/

namespace Stylesheet
namespace Selector

open Node Run

/-! ## Simple selectors -/

/-- A name, or a name with arguments up to the closer of its parenthesis. -/
inductive IsCall (source : SourceName) : List Token -> String -> Option (List Node) -> Prop
  | word {token : Token} {name : String} (hword : token.kind = .ident name) :
      IsCall source [token] name none
  | called {opener closer : Token} {content : List Token} {name : String}
      (hopener : opener.kind = .function name) (hcontent : Balances 0 content)
      (hcloser : closer.isCloser = true) :
      IsCall source (opener :: (content ++ [closer])) name
        (some [argument source name (trim content)])

/-- A simple selector, in front of the rest of a run. -/
inductive IsSimple (source : SourceName) (behind : List Token) :
    List Token -> Construct Node -> Prop
  | typeName {token : Token} {name : String} (htoken : token.kind = .ident name)
      (hbar : startsBar behind = false) : IsSimple source behind [token] (.typeSelector name)
  | universal {token : Token} (htoken : token.kind = .delim '*')
      (hbar : startsBar behind = false) : IsSimple source behind [token] (.typeSelector "*")
  | hash {token : Token} {name : String} (htoken : token.kind = .hash name) :
      IsSimple source behind [token] (.idSelector name)
  | dotted {dot word : Token} {name : String} (hdot : dot.kind = .delim '.')
      (hword : word.kind = .ident name) :
      IsSimple source behind [dot, word] (.classSelector name)
  | bracketed {opener closer : Token} {content : List Token} {construct : Construct Node}
      (hopener : opener.kind = .leftBracket) (hcontent : Balances 0 content)
      (hcloser : closer.isCloser = true)
      (hattribute : IsAttribute source (significant content) construct) :
      IsSimple source behind (opener :: (content ++ [closer])) construct
  | pseudoClass {colon : Token} {call : List Token} {name : String}
      {children : Option (List Node)} (hcolon : colon.kind = .colon)
      (hcall : IsCall source call name children) :
      IsSimple source behind (colon :: call) (.pseudoClass name children)
  | pseudoElement {colon second : Token} {call : List Token} {name : String}
      {children : Option (List Node)} (hcolon : colon.kind = .colon)
      (hsecond : second.kind = .colon) (hcall : IsCall source call name children) :
      IsSimple source behind (colon :: second :: call) (.pseudoElement name children)

/-! ## Simple selectors are read -/

variable {source : SourceName}

section Simple

variable {token : Token} {rest behind run : List Token} {construct : Construct Node}

theorem IsSimple.ne_nil (h : IsSimple source behind run construct) : run ≠ [] := by
  cases h <;> exact List.cons_ne_nil _ _

theorem IsSimple.not_isCombinator (h : IsSimple source behind run construct) :
    (spanning source run construct).isCombinator = false := by
  cases h with
  | @bracketed opener closer content construct hopener hcontent hcloser hattribute =>
      generalize significant content = tokens at hattribute
      cases hattribute with
      | named => rfl
      | compared => rfl
  | _ => rfl

theorem IsCall.exists_cons {name : String} {children : Option (List Node)}
    (h : IsCall source run name children) :
    exists first more, run = first :: more ∧ first.kind ≠ .colon := by
  cases h with
  | word hword =>
      refine ⟨_, _, rfl, ?_⟩
      rw [hword]
      exact TokenKind.noConfusion
  | called hopener =>
      refine ⟨_, _, rfl, ?_⟩
      rw [hopener]
      exact TokenKind.noConfusion

/-- What a call is read as behind its colons. -/
theorem IsCall.pseudoName? {name : String} {children : Option (List Node)}
    (h : IsCall source run name children) (colons : List Token) (isElement : Bool)
    (behind : List Token) :
    exists arguments, pseudoName? colons isElement (run ++ behind) =
        some ⟨colons ++ run, isElement, name, arguments, behind⟩ ∧
      children = arguments.map fun arguments => [argument source name (trim arguments)] := by
  cases h with
  | word hword =>
      refine ⟨none, ?_, rfl⟩
      rw [List.singleton_append, Selector.pseudoName?, hword]
  | @called opener closer content name hopener hcontent hcloser =>
      refine ⟨some content, ?_, rfl⟩
      have hgroup := hcontent.splitGroup?_append hcloser behind
      rw [List.cons_append, Selector.pseudoName?, hopener]
      simp only [hgroup]
      rw [List.append_assoc, List.cons_append]

theorem IsSimple.parts? (h : IsSimple source behind run construct) (earlier : List Node)
    (gap : Option Token) :
    parts? source earlier gap (run ++ behind) =
      parts? source (spanning source run construct :: addDescendant source gap earlier) none
        behind := by
  cases h with
  | @typeName token name htoken hbar =>
      have hsimple : simple? source token behind =
          some ⟨ofToken source token (.typeSelector name), behind⟩ := by
        simp only [simple?, htoken, type?, hbar, Bool.false_eq_true, if_false]
      exact parts?_simple hsimple
  | @universal token htoken hbar =>
      have hsimple : simple? source token behind =
          some ⟨ofToken source token (.typeSelector "*"), behind⟩ := by
        simp only [simple?, htoken, type?, hbar, Bool.false_eq_true, if_false]
      exact parts?_simple hsimple
  | @hash token name htoken =>
      have hsimple : simple? source token behind =
          some ⟨ofToken source token (.idSelector name), behind⟩ := by
        simp only [simple?, htoken]
      exact parts?_simple hsimple
  | @dotted dot word name hdot hword =>
      have hsimple : simple? source dot (word :: behind) =
          some ⟨spanning source [dot, word] (.classSelector name), behind⟩ := by
        simp only [simple?, hdot, hword]
      exact parts?_simple hsimple
  | @bracketed opener closer content construct hopener hcontent hcloser hattribute =>
      have hgroup := hcontent.splitGroup?_append hcloser behind
      have hsimple : simple? source opener (content ++ [closer] ++ behind) =
          some ⟨spanning source (opener :: (content ++ [closer])) construct, behind⟩ := by
        simp only [simple?, hopener, hgroup, attribute?_eq_some_iff.mpr hattribute]
        rfl
      exact parts?_simple hsimple
  | @pseudoClass colon call name children hcolon hcall =>
      rcases hcall.pseudoName? [colon] false behind with ⟨arguments, hname, rfl⟩
      rcases hcall.exists_cons with ⟨first, more, rfl, hfirst⟩
      rw [List.cons_append, parts?_colon hcolon, List.cons_append, pseudo?, if_neg hfirst]
      rw [List.cons_append] at hname
      rw [hname]
      rfl
  | @pseudoElement colon second call name children hcolon hsecond hcall =>
      rcases hcall.pseudoName? [colon, second] true behind with ⟨arguments, hname, rfl⟩
      rw [List.cons_append, parts?_colon hcolon, List.cons_append, pseudo?, if_pos hsecond, hname]
      rfl

theorem exists_isSimple_of_simple? {simple : Simple}
    (h : simple? source token rest = some simple) :
    exists run construct, token :: rest = run ++ simple.rest ∧
      IsSimple source simple.rest run construct ∧ simple.node = spanning source run construct := by
  cases readsSimple_of_simple? h with
  | typeName hkind hbar => exact ⟨[token], _, rfl, IsSimple.typeName hkind hbar, rfl⟩
  | universal hkind hbar => exact ⟨[token], _, rfl, IsSimple.universal hkind hbar, rfl⟩
  | @dotted word _ _ hkind hword => exact ⟨[token, word], _, rfl, IsSimple.dotted hkind hword, rfl⟩
  | hash hkind => exact ⟨[token], _, rfl, IsSimple.hash hkind, rfl⟩
  | @bracketed closer _ content after construct hkind hgroup hattribute =>
      rcases splitGroup?_eq_some_iff.mp hgroup with ⟨rfl, hcloser, hcontent⟩
      refine ⟨token :: (content ++ [closer]), construct, ?_, ?_, rfl⟩
      · rw [List.cons_append, List.append_assoc]
        rfl
      · exact IsSimple.bracketed hkind hcontent hcloser (attribute?_eq_some_iff.mp hattribute)

theorem ReadsName.exists_isCall {colons : List Token} {isElement : Bool} {pseudo : Pseudo}
    (h : ReadsName colons isElement rest pseudo) :
    exists call name children, rest = call ++ pseudo.rest ∧
      IsCall source call name children := by
  cases h with
  | word hkind => exact ⟨[_], _, _, rfl, IsCall.word hkind⟩
  | @called opener closer _ _ content after hkind hgroup =>
      rcases splitGroup?_eq_some_iff.mp hgroup with ⟨rfl, hcloser, hcontent⟩
      refine ⟨opener :: (content ++ [closer]), _, _, ?_, IsCall.called hkind hcontent hcloser⟩
      rw [List.cons_append, List.append_assoc]
      rfl

theorem exists_isSimple_of_pseudo? {pseudo : Pseudo} (hcolon : token.kind = .colon)
    (h : pseudo? token rest = some pseudo) :
    exists run construct, token :: rest = run ++ pseudo.rest ∧
      IsSimple source pseudo.rest run construct := by
  cases readsPseudo_of_pseudo? h with
  | pseudoClass hname =>
      rcases hname.exists_isCall with ⟨call, name, children, hrest, hcall⟩
      exact ⟨token :: call, _, congrArg _ hrest, IsSimple.pseudoClass hcolon hcall⟩
  | @pseudoElement second _ _ hsecond hname =>
      rcases hname.exists_isCall with ⟨call, name, children, hrest, hcall⟩
      exact ⟨token :: second :: call, _, congrArg (token :: second :: ·) hrest,
        IsSimple.pseudoElement hcolon hsecond hcall⟩

end Simple

end Selector
end Stylesheet
