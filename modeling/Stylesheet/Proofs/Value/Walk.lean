import Mathlib.Data.List.Forall2
import Stylesheet.Proofs.Reread.Components
import Stylesheet.Proofs.Token.Balanced

/-!
# What becomes a list of components

A run is read as components by cutting groups out of it, and groups out of these.  Main statements:
which runs are read at all, by the kinds of their tokens and by the numbers of their brackets; and
a walk over the components meets the tokens of the run that are not trivia, one by one and in
their order.
-/

namespace Stylesheet

/-! ## A walk over components -/

/-- What a walk over components meets: a component, or a group before or behind what it holds. -/
inductive Visit where
  | leaf (construct : Construct Node)
  | opening (group : Construct Node)
  | closing

namespace Node

mutual

/-- The visits of a walk over a component; whitespace is not visited. -/
def visits : Node -> List Visit
  | ⟨construct, _⟩ => visitsConstruct construct

def visitsConstruct : Construct Node -> List Visit
  | .whiteSpace _ => []
  | .url ⟨.raw content, location⟩ => [.leaf (.url ⟨.raw content, location⟩)]
  | .url address => .opening (.url address) :: address.visits ++ [.closing]
  | .function name nodes => .opening (.function name nodes) :: visitsAll nodes ++ [.closing]
  | .parentheses nodes => .opening (.parentheses nodes) :: visitsAll nodes ++ [.closing]
  | .brackets nodes => .opening (.brackets nodes) :: visitsAll nodes ++ [.closing]
  | construct => [.leaf construct]

/-- The visits of a walk over components, one behind another. -/
def visitsAll : List Node -> List Visit
  | [] => []
  | node :: rest => node.visits ++ visitsAll rest

end

end Node

namespace Visit

/-- A component carries what its token holds. -/
def Holds : Construct Node -> TokenKind -> Prop
  | .identifier name, kind => kind = .ident name
  | .number value, kind => kind = .number value
  | .percentage value, kind => kind = .percentage value
  | .dimension value unit, kind => kind = .dimension value unit
  | .hash name, kind => kind = .hash name
  | .string quoted, kind => kind = .string quoted
  | .unicodeRange range, kind => kind = .unicodeRange range
  | .url address, kind => exists content, address.construct = .raw content ∧ kind = .url content
  | .operator mark, kind =>
      (kind = .comma ∨ kind = .colon ∨ exists c, kind = .delim c) ∧ kind.spelling? = some mark
  | _, _ => False

/-- A group is opened by a token of its shape and name. -/
def IsOpenedBy : Construct Node -> TokenKind -> Prop
  | .function name _, kind => kind = .function name
  | .url _, kind => exists name, kind = .function name ∧ sameWord name "url" = true
  | .parentheses _, kind => kind = .leftParen
  | .brackets _, kind => kind = .leftBracket
  | _, _ => False

/-- What a walk meets where a token stands. -/
def Matches : Visit -> Token -> Prop
  | leaf construct, token => Holds construct token.kind
  | opening group, token => IsOpenedBy group token.kind
  | closing, token => token.isCloser = true

end Visit

namespace Value

open Node Run

variable {source : SourceName}

theorem visitsAll_append (front back : List Node) :
    visitsAll (front ++ back) = visitsAll front ++ visitsAll back := by
  induction front with
  | nil => rfl
  | cons node front ih => rw [List.cons_append, visitsAll, visitsAll, ih, List.append_assoc]

theorem visitsConstruct_url {address : Node}
    (h : forall content, address.construct ≠ .raw content) :
    visitsConstruct (.url address) = .opening (.url address) :: address.visits ++ [.closing] := by
  rcases address with ⟨construct, location⟩
  cases construct
  case raw content => exact absurd rfl (h content)
  all_goals rfl

theorem visits_whiteSpace {node : Node} (h : node.isWhiteSpace = true) : node.visits = [] := by
  rcases node with ⟨construct, location⟩
  have htype : construct.type = .whiteSpace := beq_iff_eq.mp h
  cases construct with
  | whiteSpace text => rfl
  | _ => cases htype

/-- Whitespace that is normalised is not visited. -/
theorem visitsAll_normalizeAfter (before space : Option Node) (nodes : List Node)
    (hspace : forall piece, piece ∈ space -> piece.isWhiteSpace = true) :
    visitsAll (normalizeAfter before space nodes) = visitsAll nodes := by
  induction nodes generalizing before space with
  | nil => rfl
  | cons node rest ih =>
      cases hnode : node.isWhiteSpace with
      | true =>
          rw [normalizeAfter_whiteSpace hnode, visitsAll, visits_whiteSpace hnode, List.nil_append]
          refine ih before _ ?_
          intro piece hpiece
          cases space with
          | none =>
              cases hpiece
              exact hnode
          | some space => exact hspace piece hpiece
      | false =>
          have hgap : visitsAll (gap before space node) = [] := by
            rcases gap_eq before space node with hnil | ⟨piece, hpiece, hone⟩
            · rw [hnil]
              rfl
            · rw [hone, visitsAll, visits_whiteSpace (hspace piece hpiece)]
              rfl
          rw [normalizeAfter_node hnode, visitsAll_append, hgap, visitsAll, visitsAll,
            ih (some node) none (by rintro _ ⟨⟩)]
          rfl

theorem visitsAll_normalize (nodes : List Node) : visitsAll (normalize nodes) = visitsAll nodes :=
  visitsAll_normalizeAfter none none nodes (by rintro _ ⟨⟩)

/-- Trivia is not visited, and every other component where its token stands. -/
theorem forall₂_visits_single {token : Token} {construct : Construct Node}
    (h : single? source token = some construct) :
    List.Forall₂ Visit.Matches (visitsConstruct construct) (significant [token]) := by
  rcases token with ⟨kind, text, start⟩
  cases kind with
  | whitespace | comment =>
      cases h
      exact List.Forall₂.nil
  | ident | number | percentage | dimension | hash | string | unicodeRange =>
      cases h
      exact List.Forall₂.cons rfl List.Forall₂.nil
  | url content =>
      cases h
      exact List.Forall₂.cons ⟨content, rfl, rfl⟩ List.Forall₂.nil
  | comma =>
      cases h
      exact List.Forall₂.cons ⟨Or.inl rfl, rfl⟩ List.Forall₂.nil
  | colon =>
      cases h
      exact List.Forall₂.cons ⟨Or.inr (Or.inl rfl), rfl⟩ List.Forall₂.nil
  | delim c =>
      cases h
      exact List.Forall₂.cons ⟨Or.inr (Or.inr ⟨c, rfl⟩), rfl⟩ List.Forall₂.nil
  | _ => cases h

/-- A group is visited before and behind what it holds. -/
theorem exists_visits_group {opener : Token} (hopens : opensGroup opener = true)
    (children : List Node) :
    exists opening : Visit, opening.Matches opener ∧
      visitsConstruct (group opener.kind children) =
        opening :: visitsAll children ++ [.closing] := by
  unfold opensGroup at hopens
  split at hopens
  · rename_i name hkind
    rw [hkind]
    unfold group
    simp only
    split
    · rename_i address hname hlone
      rcases loneString?_eq_some_iff.mp hlone with ⟨rfl, htype⟩
      refine ⟨.opening (.url address), ⟨name, hkind, hname⟩, ?_⟩
      rw [visitsConstruct_url, visitsAll, visitsAll, List.append_nil]
      intro content hcontent
      rw [Node.type, hcontent] at htype
      cases htype
    · exact ⟨.opening (.function name children), hkind, rfl⟩
  · rename_i hkind
    rw [hkind]
    exact ⟨.opening (.parentheses children), hkind, rfl⟩
  · rename_i hkind
    rw [hkind]
    exact ⟨.opening (.brackets children), hkind, rfl⟩
  · cases hopens

theorem Reads.forall₂_visits {run : List Token} {nodes : List Node} (h : Reads source run nodes) :
    List.Forall₂ Visit.Matches (visitsAll nodes) (significant run) := by
  induction h with
  | nil => exact List.Forall₂.nil
  | @single token rest construct nodes hsingle hrest ih =>
      have hsignificant : significant (token :: rest) = significant [token] ++ significant rest :=
        List.filter_append [token] rest
      rw [hsignificant]
      exact List.rel_append (forall₂_visits_single hsingle) ih
  | @group opener closer rest content after children nodes hopens hgroup hcontent hafter
      ihcontent ihafter =>
      rcases splitGroup?_eq_some_iff.mp hgroup with ⟨hrest, hcloser, _⟩
      rcases exists_visits_group hopens (normalize children) with ⟨opening, hopening, hvisits⟩
      rw [visitsAll_normalize] at hvisits
      have hopener := (isOpener_of_opensGroup hopens).2.2
      have hsignificant : significant (opener :: rest) =
          opener :: significant content ++ [closer] ++ significant after := by
        rw [hrest]
        simp [significant, hopener, isTrivia_of_isCloser hcloser]
      have hclosing : List.Forall₂ Visit.Matches [.closing] [closer] :=
        List.Forall₂.cons hcloser List.Forall₂.nil
      rw [hsignificant, visitsAll, spanning, visits, hvisits]
      exact List.rel_append
        (List.rel_append (List.Forall₂.cons hopening ihcontent) hclosing) ihafter

/-! ## The runs that are read -/

/-- The tokens that no component can hold, beside a closer that closes nothing. -/
def standsOutside : TokenKind -> Bool
  | .semicolon | .leftBrace | .atKeyword _ | .cdo | .cdc | .eof => true
  | _ => false

/-- A component of one token neither opens nor closes a group. -/
theorem plain_of_single? {token : Token} {construct : Construct Node}
    (h : single? source token = some construct) :
    isPlain token.kind = true ∧ standsOutside token.kind = false := by
  rcases token with ⟨kind, text, start⟩
  cases kind with
  | whitespace | comment | ident | number | percentage | dimension | hash | string | unicodeRange
  | url | comma | colon | delim => exact ⟨rfl, rfl⟩
  | _ => cases h

theorem standsOutside_of_opensGroup {token : Token} (h : opensGroup token = true) :
    standsOutside token.kind = false := by
  rcases token with ⟨kind, text, start⟩
  cases kind with
  | function | leftParen | leftBracket => rfl
  | _ => cases h

theorem standsOutside_of_isCloser {token : Token} (h : token.isCloser = true) :
    standsOutside token.kind = false := by
  rcases token with ⟨kind, text, start⟩
  cases kind with
  | rightParen | rightBracket | rightBrace => rfl
  | _ => cases h

/-- Any other token closes a group or stands outside of all components. -/
theorem standsOutside_or_isCloser {token : Token} (hsingle : single? source token = none)
    (hopens : opensGroup token = false) :
    standsOutside token.kind = true ∨ token.isCloser = true := by
  rcases token with ⟨kind, text, start⟩
  cases kind with
  | semicolon | leftBrace | atKeyword | cdo | cdc | eof => exact Or.inl rfl
  | rightParen | rightBracket | rightBrace => exact Or.inr rfl
  | function | leftParen | leftBracket => cases hopens
  | _ => cases hsingle

theorem Reads.closes {run : List Token} {nodes : List Node} (h : Reads source run nodes) :
    (forall token, token ∈ run -> standsOutside token.kind = false) ∧ Closes 0 run := by
  induction h with
  | nil => exact ⟨by simp, closes_nil⟩
  | single hsingle hrest ih =>
      rcases plain_of_single? hsingle with ⟨hplain, hinside⟩
      constructor
      · exact List.forall_mem_cons.mpr ⟨hinside, ih.left⟩
      · exact (closes_token hplain).append ih.right
  | group hopens hgroup hcontent hafter ihcontent ihafter =>
      rcases splitGroup?_eq_some_iff.mp hgroup with ⟨rfl, hcloser, _⟩
      have hopener := (isOpener_of_opensGroup hopens).1
      constructor
      · rw [List.forall_mem_cons, List.forall_mem_append, List.forall_mem_cons]
        exact ⟨standsOutside_of_opensGroup hopens, ihcontent.left,
          standsOutside_of_isCloser hcloser, ihafter.left⟩
      · have happend := (ihcontent.right.group hopener hcloser).append ihafter.right
        rw [List.append_assoc, List.cons_append] at happend
        exact happend

/-- Behind the opener of a group a balanced run begins with what the group holds. -/
theorem exists_splitGroup?_of_opensGroup {token : Token} {rest : List Token}
    (hopens : opensGroup token = true) (h : Balances 0 (token :: rest)) :
    exists cut, splitGroup? 0 rest = some cut ∧ Balances 0 cut.content ∧ Balances 0 cut.rest := by
  have hopener := (isOpener_of_opensGroup hopens).1
  have hrest := (balances_cons.mp h).right
  rw [depthAfter_opener hopener] at hrest
  rcases hrest.exists_splitGroup? with ⟨cut, hcut, hafter⟩
  exact ⟨cut, hcut, (splitGroup?_eq_some_iff.mp hcut).2.2, hafter⟩

/-- Balanced runs in which no token stands outside of all components are read. -/
theorem isSome_spacedComponents? (source : SourceName) (run : List Token)
    (hkinds : forall token, token ∈ run -> standsOutside token.kind = false)
    (h : Balances 0 run) : (spacedComponents? source run).isSome = true := by
  have hwithin : forall {token : Token} {rest content after : List Token} {closer : Token},
      splitGroup? 0 rest = some ⟨content, closer, after⟩ ->
      (forall other, other ∈ token :: rest -> standsOutside other.kind = false) ->
      (forall other, other ∈ content -> standsOutside other.kind = false) ∧
        forall other, other ∈ after -> standsOutside other.kind = false := by
    intro token rest content after closer hgroup hkinds
    rw [← splitGroup?_append hgroup, List.forall_mem_cons, List.forall_mem_append,
      List.forall_mem_cons] at hkinds
    exact ⟨hkinds.2.1, hkinds.2.2.2⟩
  fun_induction spacedComponents? source run with
  | case1 => rfl
  | case2 token rest construct hsingle ih =>
      have hdepth : depthAfter 0 token = 0 := (closes_token (plain_of_single? hsingle).left).2.2
      rw [balances_cons, hdepth] at h
      rw [Option.isSome_map]
      exact ih (List.forall_mem_cons.mp hkinds).right h.right
  | case3 token rest hsingle hopens hnone =>
      rcases exists_splitGroup?_of_opensGroup hopens h with ⟨cut, hcut, _⟩
      rw [hnone] at hcut
      cases hcut
  | case4 token rest hsingle hopens content closer after hgroup hcontent ih =>
      rcases exists_splitGroup?_of_opensGroup hopens h with ⟨cut, hcut, hbalances, _⟩
      rw [hgroup] at hcut
      cases hcut
      have hsome := ih (hwithin hgroup hkinds).left hbalances
      rw [hcontent] at hsome
      cases hsome
  | case5 token rest hsingle hopens content closer after hgroup children hcontent node ihcontent
      ihafter =>
      rcases exists_splitGroup?_of_opensGroup hopens h with ⟨cut, hcut, _, hbalances⟩
      rw [hgroup] at hcut
      cases hcut
      rw [Option.isSome_map]
      exact ihafter (hwithin hgroup hkinds).right hbalances
  | case6 token rest hsingle hopens =>
      rw [Bool.not_eq_true] at hopens
      rcases standsOutside_or_isCloser hsingle hopens with houtside | hcloser
      · rw [hkinds token List.mem_cons_self] at houtside
        cases houtside
      · exact absurd rfl ((balances_cons.mp h).left hcloser)

/--
A run is a list of components exactly when none of its tokens stands outside of all components and
its brackets are balanced, whatever their kinds.  A walk over the components then meets the tokens
of the run that are not trivia, one by one and in their order.
-/
theorem components?_isSome_iff_and_matches (source : SourceName) (run : List Token) :
    ((components? source run).isSome = true <->
        (forall token, token ∈ run -> standsOutside token.kind = false) ∧ Balances 0 run) ∧
      forall nodes, components? source run = some nodes ->
        List.Forall₂ Visit.Matches (visitsAll nodes) (significant run) := by
  rw [components?, Option.isSome_map]
  constructor
  · constructor
    · intro h
      rcases Option.isSome_iff_exists.mp h with ⟨nodes, hnodes⟩
      exact (reads_of_spacedComponents? hnodes).closes.imp_right fun h => (closes_iff.mp h).right
    · rintro ⟨hkinds, hbalances⟩
      exact isSome_spacedComponents? source run hkinds hbalances
  · intro nodes h
    rcases Option.map_eq_some_iff.mp h with ⟨spaced, hspaced, rfl⟩
    rw [visitsAll_normalize]
    exact (reads_of_spacedComponents? hspaced).forall₂_visits

/-- A bracket closes a parenthesis, and the walk meets it behind what stands between them. -/
theorem matches_parenthesis_closed_by_bracket :
    components? none [⟨.leftParen, "(", ⟨1, 1, 0⟩⟩, ⟨.number "1", "1", ⟨1, 2, 1⟩⟩,
        ⟨.rightBracket, "]", ⟨1, 3, 2⟩⟩] =
      some [ofConstruct (.parentheses [ofConstruct (.number "1")])] ∧
    List.Forall₂ Visit.Matches
      [.opening (.parentheses [ofConstruct (.number "1")]), .leaf (.number "1"), .closing]
      [⟨.leftParen, "(", ⟨1, 1, 0⟩⟩, ⟨.number "1", "1", ⟨1, 2, 1⟩⟩,
        ⟨.rightBracket, "]", ⟨1, 3, 2⟩⟩] := by
  have hreads : Reads none [⟨.leftParen, "(", ⟨1, 1, 0⟩⟩, ⟨.number "1", "1", ⟨1, 2, 1⟩⟩,
      ⟨.rightBracket, "]", ⟨1, 3, 2⟩⟩] _ :=
    Reads.group rfl rfl (Reads.single rfl Reads.nil) Reads.nil
  have hcomponents := congrArg (Option.map normalize) (spacedComponents?_of_reads hreads)
  exact ⟨hcomponents, (components?_isSome_iff_and_matches none _).right _ hcomponents⟩

/-- A brace closes a parenthesis too, though no component is written with a brace. -/
theorem isSome_components?_closed_by_brace :
    tokenize "(c\x7d" = .ok [⟨.leftParen, "(", ⟨1, 1, 0⟩⟩, ⟨.ident "c", "c", ⟨1, 2, 1⟩⟩,
        ⟨.rightBrace, "\x7d", ⟨1, 3, 2⟩⟩, ⟨.eof, "", ⟨1, 4, 3⟩⟩] ∧
      (components? none [⟨.leftParen, "(", ⟨1, 1, 0⟩⟩, ⟨.ident "c", "c", ⟨1, 2, 1⟩⟩,
        ⟨.rightBrace, "\x7d", ⟨1, 3, 2⟩⟩]).isSome = true := by
  have htokens : tokenize "(c\x7d" = .ok [⟨.leftParen, "(", ⟨1, 1, 0⟩⟩,
      ⟨.ident "c", "c", ⟨1, 2, 1⟩⟩, ⟨.rightBrace, "\x7d", ⟨1, 3, 2⟩⟩,
      ⟨.eof, "", ⟨1, 4, 3⟩⟩] := by
    decide +kernel
  have hreads : Reads none [⟨.leftParen, "(", ⟨1, 1, 0⟩⟩, ⟨.ident "c", "c", ⟨1, 2, 1⟩⟩,
      ⟨.rightBrace, "\x7d", ⟨1, 3, 2⟩⟩] _ :=
    Reads.group rfl rfl (Reads.single rfl Reads.nil) Reads.nil
  have hspaced := spacedComponents?_of_reads hreads
  refine ⟨htokens, ?_⟩
  rw [components?, hspaced]
  rfl

end Value
end Stylesheet
