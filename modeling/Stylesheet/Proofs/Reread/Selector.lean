import Stylesheet.Proofs.Reread.Position
import Stylesheet.Proofs.Selector.Minified
import Stylesheet.Proofs.Token.Balanced

/-!
# Selectors that are read back

A simple selector is read back from its tokens behind whatever has been read, and a combinator
behind a simple selector.  The tokens of an argument close what they open, so that the reader of
the pseudo-class around it cuts out just these.
-/

namespace Stylesheet
namespace Selector

open Node Token Run

/-- Tokens that the parts of a selector begin with. -/
def beginsPart : TokenKind -> Bool
  | .ident _ => true
  | .hash _ => true
  | .leftBracket => true
  | .colon => true
  | .delim c => ['*', '.', '>', '+', '~'].contains c
  | _ => false

/-- A run begins with a token that a part of a selector begins with. -/
def BeginsPart (run : List Token) : Prop :=
  exists token rest, run = token :: rest ∧ beginsPart token.kind = true

variable {earlier later nodes : List Node} {gap : Option Token} {run rest : List Token}

theorem BeginsPart.append (h : BeginsPart run) (rest : List Token) : BeginsPart (run ++ rest) := by
  rcases h with ⟨token, more, rfl, htoken⟩
  exact ⟨token, more ++ rest, rfl, htoken⟩

theorem isTrivia_of_beginsPart {token : Token} (h : beginsPart token.kind = true) :
    token.isTrivia = false := by
  unfold Token.isTrivia
  cases hkind : token.kind <;> rw [hkind] at h <;> first | rfl | cases h

theorem BeginsPart.begins (h : BeginsPart run) : Run.Begins run := by
  rcases h with ⟨token, rest, rfl, htoken⟩
  exact begins_cons (isTrivia_of_beginsPart htoken) rest

theorem BeginsPart.startsBar (h : BeginsPart run) : startsBar run = false := by
  rcases h with ⟨⟨kind, text, start⟩, rest, rfl, htoken⟩
  unfold Selector.startsBar
  split
  · rename_i heq
    cases heq
    exact absurd htoken Bool.false_ne_true
  · rfl

/-! ## Simple selectors -/

/-- A simple selector that is read back behind whatever has been read. -/
structure IsMember (node : Node) : Prop where
  starts : BeginsPart node.written
  closes : Closes 0 node.written
  uncut : Uncut endsPart 0 node.written
  ends : Ends node.written
  simple : node.isCombinator = false
  reads : forall earlier gap rest, startsBar rest = false ->
    parts? none earlier gap (node.written ++ rest) =
      parts? none (node :: addDescendant none gap earlier) none rest

theorem isMember_solid {construct : Construct Node} (token : Token) {inner : List Token}
    (hwritten : writtenConstruct construct = token :: inner) (hstarts : beginsPart token.kind = true)
    (hsolid : forall other, other ∈ token :: inner -> other.IsSolid)
    (hsimple : (ofConstruct construct).isCombinator = false)
    (hreads : forall rest, startsBar rest = false ->
      simple? none token (inner ++ rest) = some ⟨ofConstruct construct, rest⟩) :
    IsMember (ofConstruct construct) := by
  have hplain : forall other, other ∈ token :: inner -> isPlain other.kind = true :=
    fun other hother => (hsolid other hother).plain
  constructor
  · rw [written_ofConstruct, hwritten]
    exact ⟨token, inner, rfl, hstarts⟩
  · rw [written_ofConstruct, hwritten]
    exact closes_plain hplain
  · rw [written_ofConstruct, hwritten]
    exact uncut_plain hplain (fun other hother => (hsolid other hother).uncut) 0
  · rw [written_ofConstruct, hwritten]
    exact (begins_and_ends_of_not_trivia (List.cons_ne_nil token inner)
      fun other hother => (hsolid other hother).solid).2
  · exact hsimple
  · intro earlier gap rest hbar
    rw [written_ofConstruct, hwritten]
    exact parts?_simple (hreads rest hbar)

theorem type?_eq (token : Token) (name : String) (hbar : startsBar rest = false) :
    type? none token name rest = some ⟨ofConstruct (.typeSelector name), rest⟩ := by
  rw [type?, hbar]
  rfl

/-- A name that is the asterisk is written as the asterisk, which is read as the same name. -/
theorem isMember_type (name : String) : IsMember (ofConstruct (.typeSelector name)) := by
  by_cases hname : name = "*"
  · subst hname
    refine isMember_solid (ofMark "*") rfl rfl ?_ rfl fun rest hbar => type?_eq _ "*" hbar
    intro token htoken
    rw [List.mem_singleton.mp htoken]
    exact ⟨rfl, rfl, rfl⟩
  · have hwritten : writtenConstruct (.typeSelector name) = [ofKind (.ident name)] := by
      rw [writtenConstruct, if_neg hname]
    refine isMember_solid _ hwritten rfl ?_ rfl fun rest hbar => type?_eq _ name hbar
    intro token htoken
    rw [List.mem_singleton.mp htoken]
    exact ⟨rfl, rfl, rfl⟩

theorem isMember_class (name : String) : IsMember (ofConstruct (.classSelector name)) := by
  refine isMember_solid (ofMark ".") rfl rfl ?_ rfl fun _ _ => rfl
  intro token htoken
  rcases List.mem_cons.mp htoken with rfl | htoken
  · exact ⟨rfl, rfl, rfl⟩
  · rw [List.mem_singleton.mp htoken]
    exact ⟨rfl, rfl, rfl⟩

theorem isMember_id (name : String) : IsMember (ofConstruct (.idSelector name)) := by
  refine isMember_solid (ofKind (.hash name)) rfl rfl ?_ rfl fun _ _ => rfl
  intro token htoken
  rw [List.mem_singleton.mp htoken]
  exact ⟨rfl, rfl, rfl⟩

/-! ## Attribute selectors -/

theorem isMatcher_written {matched : List Token} {matcher : String}
    (h : IsMatcher matched matcher) : IsMatcher (writtenMatcher matcher) matcher := by
  cases h with
  | equals => exact IsMatcher.equals rfl
  | marked hmark hc hequals =>
      rw [writtenMatcher, String.toList_ofList]
      exact IsMatcher.marked rfl hc rfl

theorem isSolid_writtenMatcher (matcher : String) :
    forall token, token ∈ writtenMatcher matcher -> token.IsSolid := by
  intro token htoken
  rcases List.mem_map.mp htoken with ⟨c, -, rfl⟩
  exact ⟨rfl, rfl, rfl⟩

theorem isCompared_written {token : Token} {value : Construct Node} (h : IsCompared token value) :
    exists word, (ofConstruct value).written = [word] ∧ word.IsSolid ∧ IsCompared word value := by
  cases h with
  | word => exact ⟨_, rfl, ⟨rfl, rfl, rfl⟩, IsCompared.word rfl⟩
  | quoted => exact ⟨_, rfl, ⟨rfl, rfl, rfl⟩, IsCompared.quoted rfl⟩

theorem isFlagged_written (flags : Option String) :
    IsFlagged (significant (writtenFlags flags)) flags ∧
      forall token, token ∈ writtenFlags flags -> isPlain token.kind = true := by
  cases flags with
  | none => exact ⟨IsFlagged.bare, by rintro _ ⟨⟩⟩
  | some flags =>
      refine ⟨IsFlagged.word rfl, ?_⟩
      intro token htoken
      rcases List.mem_cons.mp htoken with rfl | htoken
      · rfl
      · rw [List.mem_singleton.mp htoken]
        rfl

theorem significant_solid (h : forall token, token ∈ run -> token.IsSolid) :
    significant run = run := by
  refine List.filter_eq_self.mpr fun token htoken => ?_
  rw [(h token htoken).solid]
  rfl

/-- An attribute selector is read back from what stands between its brackets. -/
theorem attribute?_written {content : List Token} {construct : Construct Node}
    (h : attribute? none content = some construct) :
    exists inner,
      writtenConstruct construct = ofKind .leftBracket :: inner ++ [ofKind .rightBracket] ∧
        (forall token, token ∈ inner -> isPlain token.kind = true) ∧
          attribute? none inner = some construct := by
  rcases isAttribute_of_attribute? h with ⟨tokens, -, hattribute⟩
  cases hattribute with
  | @named word name hword =>
      refine ⟨[ofKind (.ident name)], rfl, ?_, rfl⟩
      intro token htoken
      rw [List.mem_singleton.mp htoken]
      rfl
  | @compared word token matched flagged name matcher value flags hword hmarks hvalue hflags =>
      have hsolid := isSolid_writtenMatcher matcher
      rcases isCompared_written hvalue with ⟨compared, hwritten, hcompared, hread⟩
      rcases isFlagged_written flags with ⟨hflagged, hplain⟩
      refine ⟨ofKind (.ident name) :: (writtenMatcher matcher ++ compared :: writtenFlags flags),
        ?_, ?_, attribute?_eq_some_iff.mpr ?_⟩
      · rw [ofToken_none]
        simp [writtenConstruct, writtenOr, hwritten]
      · intro token htoken
        rcases List.mem_cons.mp htoken with rfl | htoken
        · rfl
        rcases List.mem_append.mp htoken with htoken | htoken
        · exact (hsolid token htoken).plain
        rcases List.mem_cons.mp htoken with rfl | htoken
        · exact hcompared.plain
        · exact hplain token htoken
      · have hsignificant : significant
            (ofKind (.ident name) :: (writtenMatcher matcher ++ compared :: writtenFlags flags)) =
              ofKind (.ident name) ::
                (writtenMatcher matcher ++ compared :: significant (writtenFlags flags)) := by
          have hfront := significant_solid hsolid
          unfold significant at hfront ⊢
          rw [List.filter_cons_of_pos rfl, List.filter_append, hfront, List.filter_cons_of_pos]
          rw [hcompared.solid]
          rfl
        rw [hsignificant]
        exact IsAttribute.compared rfl (isMatcher_written hmarks) hread hflagged

theorem isMember_attribute {content : List Token} {construct : Construct Node}
    (h : attribute? none content = some construct) : IsMember (ofConstruct construct) := by
  have hsimple : (ofConstruct construct).isCombinator = false := by
    have hoperand := @isOperand_attribute? none content [] construct h
    rw [spanning_none] at hoperand
    exact hoperand.simple
  rcases attribute?_written h with ⟨inner, hwritten, hplain, hread⟩
  have hcloses := closes_plain hplain
  constructor
  · rw [written_ofConstruct, hwritten]
    exact ⟨_, _, rfl, rfl⟩
  · rw [written_ofConstruct, hwritten]
    exact hcloses.group rfl rfl
  · rw [written_ofConstruct, hwritten]
    exact uncut_group hcloses rfl rfl rfl
  · rw [written_ofConstruct, hwritten]
    exact (ends_singleton rfl).append _
  · exact hsimple
  · intro earlier gap rest hbar
    have hsimple? : simple? none (ofKind .leftBracket) (inner ++ ofKind .rightBracket :: rest) =
        some ⟨ofConstruct construct, rest⟩ := by
      have hgroup := hcloses.splitGroup? (rfl : (ofKind .rightBracket).isCloser = true) rest
      simp only [simple?, ofKind, spanning_none] at hgroup ⊢
      rw [hgroup]
      simp only [hread, Option.map_some]
    rw [written_ofConstruct, hwritten, List.append_assoc, List.singleton_append, List.cons_append,
      parts?_simple hsimple?]

theorem isMember_simple? {token : Token} {simple : Simple}
    (h : simple? none token rest = some simple) : IsMember simple.node := by
  cases readsSimple_of_simple? h with
  | typeName => exact isMember_type _
  | universal => exact isMember_type _
  | dotted =>
      rw [spanning_none]
      exact isMember_class _
  | hash => exact isMember_id _
  | bracketed _ _ hattribute =>
      rw [spanning_none]
      exact isMember_attribute hattribute

/-! ## Pseudo-classes and pseudo-elements -/

/-- What is written for an argument is read back as the argument. -/
structure IsArgument (name : String) (node : Node) : Prop where
  trim_eq : trim node.written = node.written
  closes : Closes 0 node.written
  reads : argument none name node.written = node

section Pseudos

variable {pseudo : Pseudo}

theorem Pseudo.isSolid_colons : forall token, token ∈ pseudo.colons -> token.IsSolid := by
  have hcolon : (ofKind .colon).IsSolid := ⟨rfl, rfl, rfl⟩
  unfold colons
  split
  · exact List.forall_mem_cons.mpr ⟨hcolon, List.forall_mem_singleton.mpr hcolon⟩
  · exact List.forall_mem_singleton.mpr hcolon

/-- The colons of a pseudo-class or a pseudo-element are read behind whatever has been read. -/
theorem Pseudo.parts?_colons {word : Token} (hword : word.kind ≠ .colon) :
    parts? none earlier gap (pseudo.colons ++ word :: rest) =
      (pseudoName? pseudo.colons pseudo.isElement (word :: rest)).bind fun pseudo =>
        parts? none (pseudo.node none :: addDescendant none gap earlier) none pseudo.rest := by
  unfold colons
  cases pseudo.isElement with
  | true => exact parts?_colon rfl
  | false =>
      have hname : pseudo? (ofKind .colon) (word :: rest) =
          pseudoName? [ofKind .colon] false (word :: rest) := by
        rw [pseudo?, if_neg hword]
      rw [if_neg Bool.false_ne_true, List.singleton_append, parts?_colon rfl, hname]

theorem Pseudo.beginsPart (pseudo : Pseudo) (more : List Token) :
    BeginsPart (pseudo.colons ++ more) := by
  rcases pseudo.exists_colons with ⟨colons, hcolons⟩
  rw [hcolons]
  exact ⟨_, _, rfl, rfl⟩

theorem isMember_bare (pseudo : Pseudo) : IsMember (ofConstruct (pseudo.construct none)) := by
  have hsolid : forall token, token ∈ pseudo.colons ++ [ofKind (.ident pseudo.name)] ->
      token.IsSolid := by
    intro token htoken
    rcases List.mem_append.mp htoken with htoken | htoken
    · exact Pseudo.isSolid_colons token htoken
    · rw [List.mem_singleton.mp htoken]
      exact ⟨rfl, rfl, rfl⟩
  have hplain : forall token, token ∈ pseudo.colons ++ [ofKind (.ident pseudo.name)] ->
      isPlain token.kind = true := fun token htoken => (hsolid token htoken).plain
  have hwritten := pseudo.written_bare
  constructor
  · rw [written_ofConstruct, hwritten]
    exact pseudo.beginsPart _
  · rw [written_ofConstruct, hwritten]
    exact closes_plain hplain
  · rw [written_ofConstruct, hwritten]
    exact uncut_plain hplain (fun token htoken => (hsolid token htoken).uncut) 0
  · rw [written_ofConstruct, hwritten]
    exact (ends_singleton rfl).append _
  · exact isCombinator_construct pseudo none none
  · intro earlier gap rest _
    rw [written_ofConstruct, hwritten, List.append_assoc, List.singleton_append,
      Pseudo.parts?_colons TokenKind.noConfusion]
    change parts? none (Pseudo.node none ⟨_, pseudo.isElement, pseudo.name, none, rest⟩ :: _) none
      rest = _
    rw [Pseudo.node, spanning_none]
    rfl

theorem isMember_called {child : Node} (pseudo : Pseudo) (h : IsArgument pseudo.name child) :
    IsMember (ofConstruct (pseudo.construct (some [child]))) := by
  have hcolons : Closes 0 pseudo.colons :=
    closes_plain fun token htoken => (Pseudo.isSolid_colons token htoken).plain
  have huncut : Uncut endsPart 0 pseudo.colons :=
    uncut_plain (fun token htoken => (Pseudo.isSolid_colons token htoken).plain)
      (fun token htoken => (Pseudo.isSolid_colons token htoken).uncut) 0
  have hwritten := pseudo.written_called child
  rw [List.singleton_append] at hwritten
  constructor
  · rw [written_ofConstruct, hwritten]
    exact pseudo.beginsPart _
  · rw [written_ofConstruct, hwritten]
    exact hcolons.append (h.closes.group rfl rfl)
  · rw [written_ofConstruct, hwritten]
    refine uncut_append.mpr ⟨huncut, ?_⟩
    rw [hcolons.depthBehind]
    exact uncut_group h.closes rfl rfl rfl
  · rw [written_ofConstruct, hwritten]
    exact (((ends_singleton rfl).append child.written).cons _).append _
  · exact isCombinator_construct pseudo (some [child]) none
  · intro earlier gap rest _
    have hname : pseudoName? pseudo.colons pseudo.isElement
        (ofKind (.function pseudo.name) :: (child.written ++ ofKind .rightParen :: rest)) =
          some ⟨pseudo.colons ++ ofKind (.function pseudo.name) :: child.written ++
            [ofKind .rightParen], pseudo.isElement, pseudo.name, some child.written, rest⟩ := by
      have hgroup := h.closes.splitGroup? (rfl : (ofKind .rightParen).isCloser = true) rest
      simp only [pseudoName?, ofKind] at hgroup ⊢
      rw [hgroup]
    rw [written_ofConstruct, hwritten, List.append_assoc, List.cons_append, List.append_assoc,
      List.singleton_append, Pseudo.parts?_colons TokenKind.noConfusion, hname, Option.bind_some]
    simp only [Pseudo.node, Option.map_some, h.trim_eq, h.reads, spanning_none]
    rfl

end Pseudos

/-! ## Rows of parts -/

/-- What is read behind the parts of a selector is read back from its tokens. -/
structure Behind (earlier nodes later : List Node) : Prop where
  nodes_eq : nodes = earlier.reverse ++ later
  reads : parts? none earlier none (writtenAll later) = some nodes
  closes : Closes 0 (writtenAll later)
  uncut : Uncut endsPart 0 (writtenAll later)
  bar : startsBar (writtenAll later) = false
  starts : earlier = [] -> later ≠ [] -> BeginsPart (writtenAll later)
  ends : later ≠ [] -> Ends (writtenAll later)

theorem Behind.done (hends : endsSimple earlier = true) : Behind earlier earlier.reverse [] where
  nodes_eq := (List.append_nil _).symm
  reads := by rw [writtenAll, parts?, if_pos hends]
  closes := closes_nil
  uncut := trivial
  bar := rfl
  starts := fun _ hne => absurd rfl hne
  ends := fun hne => absurd rfl hne

theorem ends_writtenAll_cons {node : Node} (hnode : Ends node.written)
    (hlater : later ≠ [] -> Ends (writtenAll later)) : Ends (writtenAll (node :: later)) := by
  rw [writtenAll]
  by_cases hne : later = []
  · rw [hne, writtenAll, List.append_nil]
    exact hnode
  · exact (hlater hne).append _

/-- A simple selector is read in front of what is read behind it. -/
theorem Behind.operand {node : Node} (hgap : gap ≠ none -> endsSimple earlier = true)
    (hnode : IsMember node)
    (h : Behind (node :: addDescendant none gap earlier) nodes later) :
    Behind earlier nodes (descendant gap ++ node :: later) := by
  have hcloses : Closes 0 (writtenAll (node :: later)) := by
    rw [writtenAll]
    exact hnode.closes.append h.closes
  have huncut : Uncut endsPart 0 (writtenAll (node :: later)) := by
    rw [writtenAll]
    refine uncut_append.mpr ⟨hnode.uncut, ?_⟩
    rw [hnode.closes.depthBehind]
    exact h.uncut
  have hstarts : BeginsPart (writtenAll (node :: later)) := by
    rw [writtenAll]
    exact hnode.starts.append _
  have hends := ends_writtenAll_cons hnode.ends h.ends
  have hreads := hnode.reads earlier gap (writtenAll later) h.bar
  rw [h.reads] at hreads
  have hnodes := h.nodes_eq
  rw [reverse_operand] at hnodes
  cases gap with
  | none =>
      refine ⟨hnodes, ?_, hcloses, huncut, hstarts.startsBar, fun _ _ => hstarts, fun _ => hends⟩
      change parts? none earlier none (writtenAll (node :: later)) = _
      rw [writtenAll, hreads]
  | some token =>
      have hsimple := hgap (Option.some_ne_none token)
      have hwritten : writtenAll (descendant (some token) ++ node :: later) =
          blank :: writtenAll (node :: later) := writtenAll_append _ _
      have hblank : Closes 0 [blank] := closes_token rfl
      have huncut' : Uncut endsPart 0 [blank] := uncut_token rfl rfl
      refine ⟨hnodes, ?_, ?_, ?_, ?_, ?_, fun _ => ?_⟩
      -- The blank stands for the combinator that was read from the token.
      · rw [hwritten, parts?_whitespace rfl, if_pos hsimple, writtenAll]
        exact (hnode.reads earlier (some blank) (writtenAll later) h.bar).trans h.reads
      · rw [hwritten]
        exact hblank.append hcloses
      · rw [hwritten]
        refine uncut_append.mpr ⟨huncut', ?_⟩
        rw [hblank.depthBehind]
        exact huncut
      · rw [hwritten]
        rfl
      · rintro rfl
        cases hsimple
      · rw [hwritten]
        exact hends.cons blank

theorem Behind.combinator {token : Token} {name : String} (hname : combinator? token = some name)
    (hends : endsCombinator earlier = false)
    (h : Behind (ofConstruct (.combinator name) :: earlier) nodes later) :
    Behind earlier nodes (ofConstruct (.combinator name) :: later) := by
  rcases exists_delim_of_combinator? hname with ⟨c, hkind, hc, hwritten⟩
  have hall : writtenAll (ofConstruct (.combinator name) :: later) =
      ofKind (.delim c) :: writtenAll later := by
    rw [writtenAll, written_ofConstruct, hwritten]
    rfl
  have hread : combinator? (ofKind (.delim c)) = some name := by
    rw [← hname]
    unfold combinator?
    rw [hkind]
    rfl
  have hstarts : BeginsPart (ofKind (.delim c) :: writtenAll later) := by
    refine ⟨_, _, rfl, ?_⟩
    simp only [List.mem_cons, List.not_mem_nil, or_false] at hc
    rcases hc with rfl | rfl | rfl <;> rfl
  have hmark : Closes 0 [ofKind (.delim c)] := closes_token rfl
  have huncut : Uncut endsPart 0 [ofKind (.delim c)] := uncut_token rfl rfl
  refine ⟨?_, ?_, ?_, ?_, ?_, ?_, ?_⟩
  · rw [h.nodes_eq, List.reverse_cons, List.append_assoc]
    rfl
  · rw [hall, parts?_combinator hread, hends, if_neg Bool.false_ne_true, ofToken_none]
    exact h.reads
  · rw [hall]
    exact hmark.append h.closes
  · rw [hall]
    refine uncut_append.mpr ⟨huncut, ?_⟩
    rw [hmark.depthBehind]
    exact h.uncut
  · rw [hall]
    exact hstarts.startsBar
  · rw [hall]
    exact fun _ _ => hstarts
  · intro _
    refine ends_writtenAll_cons ?_ h.ends
    rw [written_ofConstruct, hwritten]
    exact ends_singleton rfl

/-! ## Lists of selectors -/

/-- A list of selectors is read back from its tokens, which have no trivia at either end. -/
structure IsSelectorList (node : Node) : Prop where
  starts : BeginsPart node.written
  ends : Ends node.written
  closes : Closes 0 node.written
  uncut : Uncut Sheet.endsPrelude 0 node.written
  reads : list? none node.written = some node

/-- A selector is read back from its tokens. -/
structure IsSelector (node : Node) : Prop extends node.IsListed where
  starts : BeginsPart node.written
  reads : (parts? none [] none node.written).map (ofPart none node.written) = some node

theorem isSelector_of_behind {part : List Token} (h : Behind [] nodes later) :
    IsSelector (ofPart none part nodes) := by
  have hnodes := h.nodes_eq
  change nodes = later at hnodes
  subst hnodes
  have hne : nodes ≠ [] := by
    rintro rfl
    have hnone := h.reads
    rw [writtenAll, parts?] at hnone
    cases hnone
  have hwritten : (ofPart none part nodes).written = writtenAll nodes := by
    rw [ofPart, spanning_none, written_ofConstruct, writtenConstruct]
  have hstarts := h.starts rfl hne
  refine ⟨⟨?_, ?_, ?_, ?_⟩, ?_, ?_⟩
  · rw [hwritten]
    exact h.closes
  · rw [hwritten]
    exact h.uncut
  · rw [hwritten]
    exact hstarts.begins
  · rw [hwritten]
    exact h.ends hne
  · rw [hwritten]
    exact hstarts
  · rw [hwritten, h.reads, Option.map_some, ofPart, ofPart, spanning_none, spanning_none]

theorem isSelectorList_of_selectors (hne : nodes ≠ [])
    (h : forall node, node ∈ nodes -> IsSelector node) :
    IsSelectorList (ofConstruct (.selectorList nodes)) := by
  have hlisted : forall node, node ∈ nodes -> node.IsListed := fun node hnode =>
    (h node hnode).toIsListed
  have hwritten : (ofConstruct (.selectorList nodes)).written = writtenCommas nodes :=
    written_ofConstruct _
  have htrim := trim_writtenCommas hlisted hne
  have hparts : listParts (writtenCommas nodes) = nodes.map written := by
    rw [listParts, htrim, splitTopLevel_writtenCommas hlisted hne]
  have hall : (nodes.map written).mapM (fun part =>
      (parts? none [] none (trim part)).map (ofPart none part)) = some nodes := by
    refine mapM_eq_some_iff.mpr (List.forall₂_map_left_iff.mpr (List.forall₂_same.mpr ?_))
    intro node hnode
    rw [trim_eq_self (hlisted node hnode).begins (hlisted node hnode).ends]
    exact (h node hnode).reads
  refine ⟨?_, ?_, ?_, ?_, ?_⟩
  · rw [hwritten]
    cases nodes with
    | nil => exact absurd rfl hne
    | cons node rest =>
        have hnode := (h node List.mem_cons_self).starts
        cases rest with
        | nil => exact hnode
        | cons next rest =>
            rw [writtenCommas_cons_cons]
            exact hnode.append _
  · rw [hwritten]
    exact ends_writtenCommas hlisted hne
  · rw [hwritten]
    exact closes_writtenCommas hlisted
  · rw [hwritten]
    exact uncut_writtenCommas hlisted
  · rw [hwritten, list?_eq, hparts, hall, Option.map_some, spanning_none]

/-! ## Arguments -/

section Arguments

variable {name : String} {node : Node}

theorem isArgument_selectors (htakes : takesSelectors name = true) (h : IsSelectorList node) :
    IsArgument name node where
  trim_eq := trim_eq_self h.starts.begins h.ends
  closes := h.closes
  reads := by rw [argument_eq, if_pos htakes, h.reads, Option.getD_some]

theorem IsFormula.begins_and_ends {construct : Construct Node} (h : IsFormula construct) :
    Run.Begins (writtenConstruct construct) ∧ Ends (writtenConstruct construct) :=
  begins_and_ends_of_not_trivia h.ne_nil fun token htoken => (h.solid token htoken).solid

theorem IsFormula.closes {construct : Construct Node} (h : IsFormula construct) :
    Closes 0 (writtenConstruct construct) :=
  closes_plain fun token htoken => (h.solid token htoken).plain

theorem isArgument_position (htakes : takesSelectors name = false)
    (htakes' : takesPosition name = true) (h : nth? none run run none = some node) :
    IsArgument name node := by
  rcases exists_formula_of_nth? h with ⟨construct, hformula, rfl, hread⟩
  have hwritten : (ofConstruct (.nth (ofConstruct construct) none)).written =
      writtenConstruct construct := by
    rw [written_ofConstruct, writtenConstruct, written_ofConstruct, writtenBehind, List.append_nil]
  rcases hformula.begins_and_ends with ⟨hbegins, hends⟩
  refine ⟨?_, ?_, ?_⟩
  · rw [hwritten]
    exact trim_eq_self hbegins hends
  · rw [hwritten]
    exact hformula.closes
  · rw [hwritten, argument_eq, htakes, if_neg Bool.false_ne_true, if_pos htakes',
      splitOf?_solid hformula.solid]
    simp only [hread, Option.getD_some]

theorem isArgument_positionOf {formula : List Token} {selectors : Node}
    (htakes : takesSelectors name = false) (htakes' : takesPosition name = true)
    (hselectors : IsSelectorList selectors)
    (h : nth? none run formula (some selectors) = some node) : IsArgument name node := by
  rcases exists_formula_of_nth? h with ⟨construct, hformula, rfl, hread⟩
  have hwritten : (ofConstruct (.nth (ofConstruct construct) (some selectors))).written =
      writtenConstruct construct ++
        ([blank, ofKind (.ident "of"), blank] ++ selectors.written) := by
    rw [written_ofConstruct, writtenConstruct, written_ofConstruct, writtenBehind]
  rcases hformula.begins_and_ends with ⟨hbegins, hends⟩
  have hword : Closes 0 [blank, ofKind (.ident "of"), blank] := closes_plain (by decide)
  have hblank : forall token, token ∈ [blank] -> token.isTrivia = true :=
    List.forall_mem_singleton.mpr rfl
  have hfront : trim (writtenConstruct construct ++ [blank]) = writtenConstruct construct := by
    rw [trim_append_of_trivia hblank, trim_eq_self hbegins hends]
  have hlist : list? none (blank :: selectors.written) = some selectors := by
    have htrim : trim (blank :: selectors.written) = trim selectors.written := rfl
    rw [← hselectors.reads, list?_eq, list?_eq, listParts, listParts, htrim]
  refine ⟨?_, ?_, ?_⟩
  · rw [hwritten]
    exact trim_eq_self (hbegins.append _) ((hselectors.ends.append _).append _)
  · rw [hwritten]
    exact hformula.closes.append (hword.append hselectors.closes)
  · rw [hwritten, argument_eq, htakes, if_neg Bool.false_ne_true, if_pos htakes',
      splitOf?_written hformula.solid]
    simp only [hlist, Option.bind_some, hfront, hread, Option.getD_some]

theorem isArgument_word (htakes : takesSelectors name = false)
    (htakes' : takesPosition name = false) (htakes'' : takesWord name = true)
    (h : word? none run = some node) : IsArgument name node := by
  rcases word?_eq_some h with ⟨word, name, rfl, -, rfl⟩
  refine ⟨trim_eq_self (begins_cons rfl []) (ends_singleton rfl), closes_token rfl, ?_⟩
  rw [argument_eq, htakes, htakes', if_neg Bool.false_ne_true, if_neg Bool.false_ne_true,
    if_pos htakes'']
  rfl

theorem written_rawRun (hrun : Seamless run) : (rawRun none run).written = run := by
  rw [rawRun, spanning_none, written_ofConstruct, writtenConstruct, ofText_of_seamless hrun]

theorem isArgument_raw (hrun : Seamless run) (htrim : trim run = run) (hcloses : Closes 0 run)
    (h : argument none name run = rawRun none run) : IsArgument name (rawRun none run) := by
  have hwritten := written_rawRun hrun
  refine ⟨?_, ?_, ?_⟩
  · rw [hwritten, htrim]
  · rw [hwritten]
    exact hcloses
  · rw [hwritten, h]

end Arguments

/-! ## Whole selectors -/

/-- What the readers build is read back from its tokens. -/
def IsReread : Reading -> Prop
  | .list run node => Seamless run -> IsSelectorList node
  | .parts earlier gap run nodes => Seamless run ->
      (gap ≠ none -> endsSimple earlier = true) -> exists later, Behind earlier nodes later
  | .argument name run node => Seamless run -> trim run = run -> Closes 0 run ->
      IsArgument name node

/-- What is cut out of a run for an argument closes its groups. -/
theorem ReadsName.seamless {colons behind : List Token} {isElement : Bool} {pseudo : Pseudo}
    (hrun : Seamless behind) (h : ReadsName colons isElement behind pseudo) :
    Seamless pseudo.rest ∧ forall arguments, pseudo.arguments = some arguments ->
      Seamless arguments ∧ Closes 0 arguments := by
  cases h with
  | word => exact ⟨hrun.tail, by rintro _ ⟨⟩⟩
  | called hkind hgroup =>
      rcases hrun.tail.group hgroup with ⟨hcontent, hrest⟩
      refine ⟨hrest, ?_⟩
      rintro _ ⟨⟩
      refine ⟨hcontent, closes_iff.mpr ⟨fun _ => hcontent.kind_ne_eof, ?_⟩⟩
      exact (splitGroup?_eq_some_iff.mp hgroup).2.2

theorem seamless_of_pseudo? {token : Token} {pseudo : Pseudo} (hrun : Seamless (token :: rest))
    (hkind : token.kind = .colon) (h : pseudo? token rest = some pseudo) :
    Seamless pseudo.rest ∧ forall arguments, pseudo.arguments = some arguments ->
      Seamless arguments ∧ Closes 0 arguments := by
  rcases pseudo?_eq_some hrun hkind h with ⟨behind, hbehind, hname⟩
  rw [hbehind] at hrun
  exact hname.seamless hrun.back

theorem isReread {reading : Reading} (h : Reads none reading) : IsReread reading := by
  have hfresh : forall {earlier : List Node}, (none : Option Token) ≠ none ->
      endsSimple earlier = true := fun hnone => absurd rfl hnone
  induction h with
  | @list run selectors hparts hselectors ih =>
      intro hrun
      rw [spanning_none]
      refine isSelectorList_of_selectors ?_ ?_
      · intro hnil
        rw [List.map_eq_nil_iff] at hnil
        rw [hnil] at hparts
        exact splitTopLevel_ne_nil _ _ _ hparts
      · intro node hnode
        rcases List.mem_map.mp hnode with ⟨selector, hselector, rfl⟩
        have hcomma : forall kind : TokenKind, (kind == .comma) = true -> isMark kind = true := by
          intro kind hkind
          rw [beq_iff_eq.mp hkind]
          rfl
        have hpart : Seamless selector.1 :=
          hrun.trim.of_mem_splitTopLevel hcomma (hparts.symm ▸ List.mem_map_of_mem hselector)
        rcases ih selector hselector hpart.trim hfresh with ⟨later, hlater⟩
        exact isSelector_of_behind hlater
  | done hends => exact fun _ _ => ⟨[], Behind.done hends⟩
  | @whitespace earlier _ _ token _ _ _ ih =>
      intro hrun hgap
      rw [← Bool.and_true (endsSimple earlier)] at ih
      exact ih hrun.tail (endsSimple_of_if token true hgap)
  | comment _ _ ih =>
      intro hrun hgap
      exact ih hrun.tail (endsSimple_of_if _ _ hgap)
  | @bare _ _ _ _ _ pseudo hkind hpseudo _ _ ih =>
      intro hrun hgap
      rw [spanning_none] at ih
      rcases ih (seamless_of_pseudo? hrun hkind hpseudo).1 hfresh with ⟨later, hlater⟩
      exact ⟨_, hlater.operand hgap (isMember_bare pseudo)⟩
  | @called _ _ _ _ _ _ pseudo child hkind hpseudo harguments _ _ ihchild ih =>
      intro hrun hgap
      rw [spanning_none] at ih
      rcases seamless_of_pseudo? hrun hkind hpseudo with ⟨hrest, hinner⟩
      rcases hinner _ harguments with ⟨hcontent, hcloses⟩
      rcases ih hrest hfresh with ⟨later, hlater⟩
      have hchild := ihchild hcontent.trim (trim_trim _) hcloses.trim
      exact ⟨_, hlater.operand hgap (isMember_called pseudo hchild)⟩
  | @combinator _ _ _ _ name _ hname hends _ ih =>
      intro hrun _
      rw [ofToken_none] at ih
      rcases ih hrun.tail hfresh with ⟨later, hlater⟩
      exact ⟨_, hlater.combinator hname hends⟩
  | @simple _ _ _ _ _ simple hsimple _ ih =>
      intro hrun hgap
      have hrest : Seamless simple.rest := by
        rcases isKept_simple? hrun hsimple with ⟨front, hfront, -⟩
        rw [hfront] at hrun
        exact hrun.back
      rcases ih hrest hfresh with ⟨later, hlater⟩
      exact ⟨_, hlater.operand hgap (isMember_simple? hsimple)⟩
  | selectors htakes _ ih => exact fun hrun _ _ => isArgument_selectors htakes (ih hrun)
  | position htakes htakes' _ hnth => exact fun _ _ _ => isArgument_position htakes htakes' hnth
  | positionOf htakes htakes' hof _ hnth ih =>
      intro hrun _ _
      refine isArgument_positionOf htakes htakes' (ih ?_) hnth
      rcases (splitOf?_eq_some_iff.mp hof).exists_word with ⟨word, -, heq⟩
      rw [heq, List.append_cons] at hrun
      exact hrun.back
  | word htakes htakes' htakes'' hword =>
      exact fun _ _ _ => isArgument_word htakes htakes' htakes'' hword
  | raw hraw => exact fun hrun htrim hcloses => isArgument_raw hrun htrim hcloses hraw

/-! ## Preludes -/

/-- The prelude of a rule is read back from its tokens. -/
structure IsPrelude (run : List Token) (node : Node) : Prop where
  reads : prelude none node.written = node
  follows : Follows Sheet.endsPrelude run node.written
  starts : BeginsPart node.written ∨ node.written = trim run

theorem isPrelude_prelude (hrun : Seamless run) : IsPrelude run (prelude none run) := by
  have hfollows : Follows Sheet.endsPrelude run (trim run) := follows_trim run
  unfold prelude
  cases hlist : list? none (trim run) with
  | some node =>
      have hnode := isReread ((reads none).1 _ node hlist) hrun.trim
      rw [Option.getD_some]
      refine ⟨?_, hnode.closes.follows hnode.uncut run, Or.inl hnode.starts⟩
      rw [prelude, trim_eq_self hnode.starts.begins hnode.ends, hnode.reads, Option.getD_some]
  | none =>
      have hwritten := written_rawRun hrun.trim
      rw [Option.getD_none]
      refine ⟨?_, ?_, Or.inr hwritten⟩
      · rw [hwritten, prelude, trim_trim, hlist, Option.getD_none]
      · rw [hwritten]
        exact hfollows

end Selector
end Stylesheet
