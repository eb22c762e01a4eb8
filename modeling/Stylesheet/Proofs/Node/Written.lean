import Stylesheet.Node.Render
import Stylesheet.Proofs.Node.Pieces
import Stylesheet.Proofs.Token.Seamless

/-!
# The tokens of a tree

A tree is written as a row of tokens that mirrors its text: each piece of the text is the token
it is meant to be, whatever stands beside it.  Text that the tree keeps as it is counts as the
tokens it has by itself.
-/

namespace Stylesheet

namespace Token

/-- The token of a kind that has one spelling. -/
def ofKind (kind : TokenKind) : Token :=
  ⟨kind, kind.spelling?.getD "", .start⟩

/-- The one piece of whitespace that is written. -/
def blank : Token :=
  ⟨.whitespace, " ", .start⟩

/-- The token of an operator. -/
def ofMark (mark : String) : Token :=
  match mark.toList with
  | [','] => ⟨.comma, mark, .start⟩
  | [':'] => ⟨.colon, mark, .start⟩
  | c :: _ => ⟨.delim c, mark, .start⟩
  | [] => ⟨.string mark, mark, .start⟩

/-- The tokens that a text has by itself; a text that has none counts as one token. -/
def ofText (text : String) : List Token :=
  match tokenize text with
  | .ok tokens => (tokens.filter (·.kind != .eof)).map bare
  | .error _ => [⟨.string text, text, .start⟩]

end Token

namespace Node

open Token

/-- The tokens of a matcher. -/
def writtenMatcher (matcher : String) : List Token :=
  matcher.toList.map fun c => ofKind (.delim c)

/-- The tokens of the flags of an attribute selector. -/
def writtenFlags : Option String -> List Token
  | none => []
  | some flags => [blank, ofKind (.ident flags)]

/-- The tokens of the mark of importance. -/
def importance : List Token :=
  [ofKind (.delim '!'), ofKind (.ident "important")]

mutual

/-- The tokens of a node. -/
def written : Node -> List Token
  | ⟨construct, _⟩ => writtenConstruct construct

/-- The tokens of a construct. -/
def writtenConstruct : Construct Node -> List Token
  | .styleSheet nodes => writtenAll nodes
  | .atRule name front body =>
      ofKind (.atKeyword name) :: writtenBehind [blank] front ++
        writtenOr [ofKind .semicolon] body
  | .atRulePrelude nodes => writtenAll nodes
  | .rule front body => front.written ++ body.written
  | .block nodes => ofKind .leftBrace :: writtenBlock nodes ++ [ofKind .rightBrace]
  | .declarationList nodes => writtenBlock nodes
  | .declaration important property content =>
      ofText property ++ ofKind .colon :: content.written ++ (if important then importance else [])
  | .selectorList nodes => writtenCommas nodes
  | .selector nodes => writtenAll nodes
  | .typeSelector name => [if name = "*" then ofMark name else ofKind (.ident name)]
  | .idSelector name => [ofKind (.hash name)]
  | .classSelector name => [ofMark ".", ofKind (.ident name)]
  | .attributeSelector name none _ flags =>
      ofKind .leftBracket :: ofKind (.ident name) :: writtenFlags flags ++ [ofKind .rightBracket]
  | .attributeSelector name (some matcher) content flags =>
      ofKind .leftBracket :: ofKind (.ident name) :: writtenMatcher matcher ++
        writtenOr [] content ++ writtenFlags flags ++ [ofKind .rightBracket]
  | .pseudoClass name none => [ofKind .colon, ofKind (.ident name)]
  | .pseudoClass name (some nodes) =>
      ofKind .colon :: ofKind (.function name) :: writtenAll nodes ++ [ofKind .rightParen]
  | .pseudoElement name none => [ofKind .colon, ofKind .colon, ofKind (.ident name)]
  | .pseudoElement name (some nodes) =>
      ofKind .colon :: ofKind .colon :: ofKind (.function name) :: writtenAll nodes ++
        [ofKind .rightParen]
  | .combinator name => [if name = " " then blank else ofMark name]
  | .nth formula filter =>
      formula.written ++ writtenBehind [blank, ofKind (.ident "of"), blank] filter
  | .anPlusB a b => ofText (AnPlusB.text ⟨a, b⟩)
  | .value nodes => writtenAll nodes
  | .identifier name => [ofKind (.ident name)]
  | .number text => [ofKind (.number text)]
  | .dimension text unit => [ofKind (.dimension text unit)]
  | .percentage text => [ofKind (.percentage text)]
  | .hash text => [ofKind (.hash text)]
  | .string text => [ofKind (.string text)]
  | .url ⟨.raw content, _⟩ => [⟨.url content, "url(" ++ content ++ ")", .start⟩]
  | .url address => ofKind (.function "url") :: address.written ++ [ofKind .rightParen]
  | .unicodeRange text => [ofKind (.unicodeRange text)]
  | .function name nodes =>
      ofKind (.function name) :: writtenAll nodes ++ [ofKind .rightParen]
  | .parentheses nodes => ofKind .leftParen :: writtenAll nodes ++ [ofKind .rightParen]
  | .brackets nodes => ofKind .leftBracket :: writtenAll nodes ++ [ofKind .rightBracket]
  | .operator text => [ofMark text]
  | .whiteSpace text => [⟨.whitespace, text, .start⟩]
  | .comment text => [ofKind (.comment text)]
  | .raw text => ofText text
  | .mediaQueryList nodes => writtenCommas nodes
  | .mediaQuery nodes => writtenAll nodes
  | .mediaFeature name content =>
      ofKind .leftParen :: ofKind (.ident name) :: writtenBehind [ofKind .colon] content ++
        [ofKind .rightParen]
  | .ratio left right => [ofKind (.number left), ofMark "/", ofKind (.number right)]
  | .cdo => [ofKind .cdo]
  | .cdc => [ofKind .cdc]

/-- The tokens of nodes, one directly behind another. -/
def writtenAll : List Node -> List Token
  | [] => []
  | node :: rest => node.written ++ writtenAll rest

/-- The tokens of nodes with commas between them. -/
def writtenCommas : List Node -> List Token
  | [] => []
  | [node] => node.written
  | node :: rest => node.written ++ ofKind .comma :: writtenCommas rest

/-- The tokens of the children of a block. -/
def writtenBlock : List Node -> List Token
  | [] => []
  | [node] => node.written
  | node :: rest =>
      node.written ++ (if node.isDeclaration then [ofKind .semicolon] else []) ++
        writtenBlock rest

/-- The tokens of a node behind others, or nothing. -/
def writtenBehind (mark : List Token) : Option Node -> List Token
  | none => []
  | some node => mark ++ node.written

/-- The tokens of a node, or else others. -/
def writtenOr (other : List Token) : Option Node -> List Token
  | none => other
  | some node => node.written

end

theorem written_eq (node : Node) : node.written = writtenConstruct node.construct := by
  cases node
  rw [written]

theorem writtenConstruct_url {address : Node}
    (h : forall content, address.construct ≠ .raw content) :
    writtenConstruct (.url address) =
      ofKind (.function "url") :: address.written ++ [ofKind .rightParen] := by
  rcases address with ⟨construct, location⟩
  cases construct
  case raw content => exact absurd rfl (h content)
  all_goals rfl

theorem writtenAll_eq (nodes : List Node) : writtenAll nodes = nodes.flatMap written := by
  induction nodes with
  | nil => rw [writtenAll, List.flatMap_nil]
  | cons node rest ih => rw [writtenAll, List.flatMap_cons, ih]

theorem writtenCommas_cons_cons (node next : Node) (rest : List Node) :
    writtenCommas (node :: next :: rest) =
      node.written ++ ofKind .comma :: writtenCommas (next :: rest) := by
  rw [writtenCommas]
  intro heq
  cases heq

theorem writtenBlock_cons_cons (node next : Node) (rest : List Node) :
    writtenBlock (node :: next :: rest) =
      node.written ++ (if node.isDeclaration then [ofKind .semicolon] else []) ++
        writtenBlock (next :: rest) := by
  rw [writtenBlock]
  intro heq
  cases heq

end Node

/-! ## The text of the tokens of a tree -/

namespace Token

@[simp] theorem text_ofKind (kind : TokenKind) : (ofKind kind).text = kind.spelling?.getD "" :=
  rfl

@[simp] theorem text_blank : blank.text = " " :=
  rfl

@[simp] theorem text_ofMark (mark : String) : (ofMark mark).text = mark := by
  unfold ofMark
  split <;> rfl

/-- The tokens of a source, without their places and without its end. -/
theorem ofText_of_tokenize {text : String} {body : List Token} {last : Token}
    (h : tokenize text = .ok (body ++ [last])) (hlast : last.kind = .eof)
    (hbody : forall token, token ∈ body -> token.kind ≠ .eof) : ofText text = body.map bare := by
  unfold ofText
  rw [h]
  simp only
  rw [List.filter_append, List.filter_eq_self.mpr, List.filter_cons_of_neg, List.filter_nil,
    List.append_nil]
  · simp [hlast]
  · intro token htoken
    simpa using hbody token htoken

@[simp] theorem text_ofText (text : String) : Run.text (ofText text) = text := by
  cases htokens : tokenize text with
  | error error =>
      unfold ofText
      rw [htokens]
      exact (Run.text_cons _ []).trans String.append_empty
  | ok tokens =>
      rcases (scan_of_scanFrom htokens).lexes with ⟨body, last, rfl, hlast, hbody, hlexes⟩
      have hkind : last.kind = .eof := congrArg Token.kind hlast
      rw [ofText_of_tokenize htokens hkind hbody]
      exact String.toList_inj.mp (Run.text_of_lexes hlexes)

/-- The text of a seamless run has the tokens of the run, at their places in that text. -/
theorem tokenize_of_seamless {run : List Token} (h : Run.Seamless run) :
    exists body last, tokenize (Run.text run) = .ok (body ++ [last]) ∧ last.kind = .eof ∧
      body.map bare = run := by
  rcases Lexes.scan h .start with ⟨body, last, hscan, hlast, hbody⟩
  exact ⟨body, last, scanFrom_of_scan hscan, hlast, hbody⟩

theorem ofText_of_seamless {run : List Token} (h : Run.Seamless run) :
    ofText (Run.text run) = run := by
  rcases tokenize_of_seamless h with ⟨body, last, htokens, hlast, hbody⟩
  rw [ofText_of_tokenize htokens hlast, hbody]
  intro token htoken
  have hne := h.kind_ne_eof (hbody ▸ List.mem_map_of_mem htoken)
  exact hne

/-- A run is seamless when its text has the tokens of the run. -/
theorem seamless_iff_ofText {run : List Token} :
    Run.Seamless run <->
      (tokenize (Run.text run)).isOk = true ∧ ofText (Run.text run) = run := by
  constructor
  · intro h
    rcases tokenize_of_seamless h with ⟨body, last, htokens, -, -⟩
    refine ⟨?_, ofText_of_seamless h⟩
    rw [htokens]
    rfl
  · rintro ⟨hok, hrun⟩
    cases htokens : tokenize (Run.text run) with
    | error error =>
        rw [htokens] at hok
        cases hok
    | ok tokens =>
        rcases (scan_of_scanFrom htokens).lexes with ⟨body, last, rfl, hlast, hbody, hlexes⟩
        rw [ofText_of_tokenize htokens (congrArg Token.kind hlast) hbody] at hrun
        rw [← hrun]
        exact Run.seamless_of_lexes hlexes

instance (run : List Token) : Decidable (Run.Seamless run) :=
  decidable_of_iff _ seamless_iff_ofText.symm

end Token

namespace Node

open Token

section Text

variable {nodes : List Node}

theorem text_writtenAll
    (h : forall child, child ∈ nodes -> Run.text child.written = child.render) :
    Run.text (writtenAll nodes) = renderAll nodes := by
  induction nodes with
  | nil => rw [writtenAll, renderAll, Run.text_nil]
  | cons node rest ih =>
      rw [writtenAll, renderAll, Run.text_append, h node List.mem_cons_self,
        ih fun child hchild => h child (List.mem_cons_of_mem node hchild)]

theorem text_writtenCommas
    (h : forall child, child ∈ nodes -> Run.text child.written = child.render) :
    Run.text (writtenCommas nodes) = renderCommas nodes := by
  induction nodes with
  | nil => rw [writtenCommas, renderCommas, Run.text_nil]
  | cons node rest ih =>
      have hnode := h node List.mem_cons_self
      cases rest with
      | nil => rw [writtenCommas, renderCommas, hnode]
      | cons next rest =>
          rw [writtenCommas_cons_cons, renderCommas_cons_cons, Run.text_append, Run.text_cons,
            hnode, ih fun child hchild => h child (List.mem_cons_of_mem node hchild),
            String.append_assoc]
          rfl

theorem text_writtenBlock
    (h : forall child, child ∈ nodes -> Run.text child.written = child.render) :
    Run.text (writtenBlock nodes) = renderBlock nodes := by
  induction nodes with
  | nil => rw [writtenBlock, renderBlock, Run.text_nil]
  | cons node rest ih =>
      have hnode := h node List.mem_cons_self
      cases rest with
      | nil => rw [writtenBlock, renderBlock, hnode]
      | cons next rest =>
          rw [writtenBlock_cons_cons, renderBlock_cons_cons, Run.text_append, Run.text_append,
            hnode, ih fun child hchild => h child (List.mem_cons_of_mem node hchild)]
          cases node.isDeclaration <;> rfl

theorem text_writtenBehind {mark : List Token} {sign : String} {node : Option Node}
    (hmark : Run.text mark = sign)
    (h : forall child, child ∈ node -> Run.text child.written = child.render) :
    Run.text (writtenBehind mark node) = renderBehind sign node := by
  cases node with
  | none => rw [writtenBehind, renderBehind, Run.text_nil]
  | some node => rw [writtenBehind, renderBehind, Run.text_append, hmark, h node rfl]

theorem text_writtenOr {other : List Token} {sign : String} {node : Option Node}
    (hother : Run.text other = sign)
    (h : forall child, child ∈ node -> Run.text child.written = child.render) :
    Run.text (writtenOr other node) = renderOr sign node := by
  cases node with
  | none => rw [writtenOr, renderOr, hother]
  | some node => rw [writtenOr, renderOr, h node rfl]

end Text

@[simp] theorem text_writtenMatcher (matcher : String) :
    Run.text (writtenMatcher matcher) = matcher := by
  have hlist : forall marks : List Char,
      (Run.text (marks.map fun c => ofKind (.delim c))).toList = marks := by
    intro marks
    induction marks with
    | nil => rfl
    | cons c marks ih =>
        have hc : (ofKind (.delim c)).text.toList = [c] := String.toList_singleton c
        rw [List.map_cons, Run.text_cons, String.toList_append, ih, hc]
        rfl
  exact String.toList_inj.mp (hlist matcher.toList)

@[simp] theorem text_writtenFlags (flags : Option String) :
    Run.text (writtenFlags flags) = (flags.map (" " ++ ·)).getD "" := by
  cases flags with
  | none => rfl
  | some flags =>
      rw [writtenFlags, Run.text_cons, Run.text_cons, Run.text_nil, String.append_empty]
      rfl

theorem text_writtenConstruct (construct : Construct Node)
    (h : forall child, child ∈ construct.children -> Run.text child.written = child.render) :
    Run.text (writtenConstruct construct) = renderConstruct construct := by
  cases construct
  case atRule name front body =>
    have hfront : Run.text (writtenBehind [blank] front) = renderBehind " " front := by
      refine text_writtenBehind rfl ?_
      intro child hchild
      exact h child (List.mem_append_left _ (Option.mem_toList.mpr hchild))
    have hbody : Run.text (writtenOr [ofKind .semicolon] body) = renderOr ";" body := by
      refine text_writtenOr rfl ?_
      intro child hchild
      exact h child (List.mem_append_right _ (Option.mem_toList.mpr hchild))
    simp [writtenConstruct, renderConstruct, TokenKind.spelling?, hfront, hbody,
      String.append_assoc]
  case typeSelector name =>
    rw [writtenConstruct, renderConstruct]
    split <;> simp [TokenKind.spelling?]
  case combinator name =>
    rw [writtenConstruct, renderConstruct]
    split
    · simp [*]
    · simp
  case attributeSelector name matcher content flags =>
    have hcontent : Run.text (writtenOr [] content) = renderOr "" content := by
      refine text_writtenOr rfl ?_
      intro child hchild
      exact h child (Option.mem_toList.mpr hchild)
    cases matcher <;> simp [writtenConstruct, renderConstruct, TokenKind.spelling?, hcontent,
      String.append_assoc]
  case pseudoClass name nodes | pseudoElement name nodes =>
    have hcolons : forall text, "::" ++ text = ":" ++ (":" ++ text) := by
      intro text
      rw [← String.append_assoc]
      rfl
    cases nodes with
    | none => simp [writtenConstruct, renderConstruct, TokenKind.spelling?, hcolons]
    | some nodes =>
        have hnodes : Run.text (writtenAll nodes) = renderAll nodes := text_writtenAll h
        simp [writtenConstruct, renderConstruct, TokenKind.spelling?, hnodes, hcolons,
          String.append_assoc]
  case nth formula filter =>
    have hfilter : Run.text (writtenBehind [blank, ofKind (.ident "of"), blank] filter) =
        renderBehind " of " filter := by
      refine text_writtenBehind rfl ?_
      intro child hchild
      exact h child (List.mem_cons_of_mem formula (Option.mem_toList.mpr hchild))
    simp [writtenConstruct, renderConstruct, h formula List.mem_cons_self, hfilter]
  case mediaFeature name content =>
    have hcontent : Run.text (writtenBehind [ofKind .colon] content) =
        renderBehind ":" content := by
      refine text_writtenBehind rfl ?_
      intro child hchild
      exact h child (Option.mem_toList.mpr hchild)
    simp [writtenConstruct, renderConstruct, TokenKind.spelling?, hcontent, String.append_assoc]
  case declaration important property content =>
    have hcontent := h content List.mem_cons_self
    cases important <;> simp [writtenConstruct, renderConstruct, TokenKind.spelling?, hcontent,
      importance, String.append_assoc]
  case rule front body =>
    have hfront := h front List.mem_cons_self
    have hbody := h body (List.mem_cons_of_mem front List.mem_cons_self)
    simp [writtenConstruct, renderConstruct, hfront, hbody]
  case url address =>
    have haddress := h address List.mem_cons_self
    by_cases hraw : exists content, address.construct = .raw content
    · rcases hraw with ⟨content, hraw⟩
      rcases address with ⟨construct, location⟩
      change construct = _ at hraw
      subst hraw
      simp [writtenConstruct, renderConstruct, Node.render]
    · rw [writtenConstruct_url fun content hcontent => hraw ⟨content, hcontent⟩]
      simp [renderConstruct, TokenKind.spelling?, haddress, String.append_assoc]
  case selectorList nodes | mediaQueryList nodes =>
    have hnodes : Run.text (writtenCommas nodes) = renderCommas nodes := text_writtenCommas h
    simp [writtenConstruct, renderConstruct, hnodes]
  case block nodes | declarationList nodes =>
    have hnodes : Run.text (writtenBlock nodes) = renderBlock nodes := text_writtenBlock h
    simp [writtenConstruct, renderConstruct, TokenKind.spelling?, hnodes, String.append_assoc]
  case styleSheet nodes | atRulePrelude nodes | selector nodes | value nodes |
      function name nodes | parentheses nodes | brackets nodes | mediaQuery nodes =>
    have hnodes : Run.text (writtenAll nodes) = renderAll nodes := text_writtenAll h
    simp [writtenConstruct, renderConstruct, TokenKind.spelling?, hnodes, String.append_assoc]
  all_goals simp [writtenConstruct, renderConstruct, TokenKind.spelling?, String.append_assoc]

/-- The tokens of a node are its rendering. -/
theorem text_written (node : Node) : Run.text node.written = node.render := by
  induction node using Node.induction with
  | step node ih => rw [written_eq, render_eq, text_writtenConstruct node.construct ih]

end Node

end Stylesheet
