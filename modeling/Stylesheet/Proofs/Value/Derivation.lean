import Stylesheet.Value

/-!
# Reading components as a derivation

`Value.Reads` says how a list of components comes about, token by token and group by group.
It is the reader without its failures, so that facts about components are inductions over it.
-/

namespace Stylesheet
namespace Value

/-- A component that is one token. -/
inductive ReadsSingle (source : SourceName) (token : Token) : Construct Node -> Prop
  | trivia (htrivia : token.isTrivia = true) : ReadsSingle source token (.whiteSpace " ")
  | word {name : String} (hkind : token.kind = .ident name) :
      ReadsSingle source token (.identifier name)
  | number {value : String} (hkind : token.kind = .number value) :
      ReadsSingle source token (.number value)
  | percentage {value : String} (hkind : token.kind = .percentage value) :
      ReadsSingle source token (.percentage value)
  | dimension {value unit : String} (hkind : token.kind = .dimension value unit) :
      ReadsSingle source token (.dimension value unit)
  | hash {name : String} (hkind : token.kind = .hash name) : ReadsSingle source token (.hash name)
  | string {quoted : String} (hkind : token.kind = .string quoted) :
      ReadsSingle source token (.string quoted)
  | range {range : String} (hkind : token.kind = .unicodeRange range) :
      ReadsSingle source token (.unicodeRange range)
  | address {content : String} (hkind : token.kind = .url content) :
      ReadsSingle source token (.url (Node.ofToken source token (.raw content)))
  | comma (hkind : token.kind = .comma) : ReadsSingle source token (.operator ",")
  | colon (hkind : token.kind = .colon) : ReadsSingle source token (.operator ":")
  | delim {c : Char} (hkind : token.kind = .delim c) :
      ReadsSingle source token (.operator (String.singleton c))

theorem readsSingle_of_single? {source : SourceName} {token : Token} {construct : Construct Node}
    (h : single? source token = some construct) : ReadsSingle source token construct := by
  unfold single? at h
  split at h <;> rename_i hkind <;> cases h
  · exact ReadsSingle.trivia (congrArg TokenKind.isTrivia hkind)
  · exact ReadsSingle.trivia (congrArg TokenKind.isTrivia hkind)
  all_goals constructor; exact hkind

theorem isWhiteSpace_of_single? {source : SourceName} {token : Token}
    {construct : Construct Node} (h : single? source token = some construct)
    (location : Option Location) : Node.isWhiteSpace ⟨construct, location⟩ = token.isTrivia := by
  cases readsSingle_of_single? h with
  | trivia htrivia => exact htrivia.symm
  | _ => rw [Token.isTrivia, ‹token.kind = _›]; rfl

theorem isWhiteSpace_group (opener : TokenKind) (nodes : List Node) (location : Option Location) :
    Node.isWhiteSpace ⟨group opener nodes, location⟩ = false := by
  unfold group
  split
  · split <;> rfl
  · rfl
  · rfl

/-- A run is read as components, with all of its whitespace. -/
inductive Reads (source : SourceName) : List Token -> List Node -> Prop
  | nil : Reads source [] []
  | single {token : Token} {rest : List Token} {construct : Construct Node} {nodes : List Node}
      (hsingle : single? source token = some construct) (hrest : Reads source rest nodes) :
      Reads source (token :: rest) (Node.ofToken source token construct :: nodes)
  | group {opener closer : Token} {rest content after : List Token} {children nodes : List Node}
      (hopens : opensGroup opener = true)
      (hgroup : Run.splitGroup? 0 rest = some ⟨content, closer, after⟩)
      (hcontent : Reads source content children) (hafter : Reads source after nodes) :
      Reads source (opener :: rest)
        (Node.spanning source (opener :: content ++ [closer])
          (group opener.kind (normalize children)) :: nodes)

theorem loneString?_eq_some_iff {nodes : List Node} {node : Node} :
    loneString? nodes = some node <-> nodes = [node] ∧ node.type = .string := by
  constructor
  · intro h
    unfold loneString? at h
    split at h
    · split at h
      · cases h
        exact ⟨rfl, beq_iff_eq.mp ‹_›⟩
      · cases h
    · cases h
  · rintro ⟨rfl, htype⟩
    rw [loneString?, htype]
    rfl

theorem single?_of_opensGroup {source : SourceName} {token : Token}
    (h : opensGroup token = true) : single? source token = none := by
  unfold opensGroup at h
  split at h <;> rename_i hkind
  · simp only [single?, hkind]
  · simp only [single?, hkind]
  · simp only [single?, hkind]
  · cases h

theorem spacedComponents?_single {source : SourceName} {token : Token}
    {construct : Construct Node} (h : single? source token = some construct)
    (rest : List Token) :
    spacedComponents? source (token :: rest) =
      (spacedComponents? source rest).map (Node.ofToken source token construct :: ·) := by
  rw [spacedComponents?, h]

theorem spacedComponents?_group {source : SourceName} {opener : Token}
    (h : opensGroup opener = true) (rest : List Token) :
    spacedComponents? source (opener :: rest) =
      (Run.splitGroup? 0 rest).bind fun cut =>
        (spacedComponents? source cut.content).bind fun children =>
          (spacedComponents? source cut.rest).map
            (Node.spanning source (opener :: cut.content ++ [cut.closer])
              (group opener.kind (normalize children)) :: ·) := by
  rw [spacedComponents?]
  simp only [single?_of_opensGroup h, if_pos h]
  split
  · rename_i hnone
    rw [hnone]
    rfl
  · rename_i content closer after hsome
    rw [hsome, Option.bind_some]
    cases spacedComponents? source content <;> rfl

theorem spacedComponents?_none {source : SourceName} {token : Token}
    (hsingle : single? source token = none) (hopens : opensGroup token = false)
    (rest : List Token) : spacedComponents? source (token :: rest) = none := by
  rw [spacedComponents?]
  simp only [hsingle, hopens, Bool.false_eq_true, if_false]

theorem reads_of_spacedComponents? {source : SourceName} {run : List Token}
    {nodes : List Node} (h : spacedComponents? source run = some nodes) :
    Reads source run nodes := by
  fun_induction spacedComponents? source run generalizing nodes with
  | case1 =>
      cases h
      exact Reads.nil
  | case2 token rest construct hsingle ih =>
      rcases Option.map_eq_some_iff.mp h with ⟨later, hlater, rfl⟩
      exact Reads.single hsingle (ih hlater)
  | case3 => cases h
  | case4 => cases h
  | case5 token rest hsingle hopens content closer after hgroup children hcontent _ ihcontent =>
      rename_i ihafter
      rcases Option.map_eq_some_iff.mp h with ⟨later, hlater, rfl⟩
      exact Reads.group hopens hgroup (ihcontent hcontent) (ihafter hlater)
  | case6 => cases h

theorem spacedComponents?_of_reads {source : SourceName} {run : List Token}
    {nodes : List Node} (h : Reads source run nodes) :
    spacedComponents? source run = some nodes := by
  induction h with
  | nil => rw [spacedComponents?]
  | single hsingle hrest ih =>
      rw [spacedComponents?_single hsingle, ih]
      rfl
  | group hopens hgroup hcontent hafter ihcontent ihafter =>
      rw [spacedComponents?_group hopens, hgroup, Option.bind_some, ihcontent, Option.bind_some,
        ihafter]
      rfl

theorem spacedComponents?_eq_some_iff {source : SourceName} {run : List Token}
    {nodes : List Node} :
    spacedComponents? source run = some nodes <-> Reads source run nodes :=
  ⟨reads_of_spacedComponents?, spacedComponents?_of_reads⟩

/-! ## Normal whitespace -/

theorem gap_sublist (before space : Option Node) (after : Node) :
    (gap before space after).Sublist space.toList := by
  unfold gap
  split
  · split
    · exact List.nil_sublist _
    · exact List.Sublist.refl _
  · exact List.nil_sublist _

theorem normalizeAfter_sublist (before space : Option Node) (nodes : List Node) :
    (normalizeAfter before space nodes).Sublist (space.toList ++ nodes) := by
  induction nodes generalizing before space with
  | nil =>
      rw [normalizeAfter]
      exact List.nil_sublist _
  | cons node rest ih =>
      rw [normalizeAfter]
      split
      · cases space with
        | none => exact ih before (some node)
        | some space =>
            exact (ih before (some space)).trans
              ((List.sublist_cons_self node rest).append_left [space])
      · exact (gap_sublist before space node).append ((ih (some node) none).cons_cons node)

theorem normalize_sublist (nodes : List Node) : (normalize nodes).Sublist nodes :=
  normalizeAfter_sublist none none nodes

theorem normalizeAfter_whiteSpace {node : Node} (h : node.isWhiteSpace = true)
    (before space : Option Node) (rest : List Node) :
    normalizeAfter before space (node :: rest) =
      normalizeAfter before (space.orElse fun _ => some node) rest := by
  rw [normalizeAfter, if_pos h]

theorem normalizeAfter_node {node : Node} (h : node.isWhiteSpace = false)
    (before space : Option Node) (rest : List Node) :
    normalizeAfter before space (node :: rest) =
      gap before space node ++ node :: normalizeAfter (some node) none rest := by
  rw [normalizeAfter, h, if_neg Bool.false_ne_true]

/-- Of the whitespace in a row only the first piece counts, if none has been passed before. -/
theorem normalizeAfter_whiteSpaces_append {pieces : List Node}
    (h : forall piece, piece ∈ pieces -> piece.isWhiteSpace = true) (before space : Option Node)
    (rest : List Node) :
    normalizeAfter before space (pieces ++ rest) =
      normalizeAfter before (space.or pieces.head?) rest := by
  induction pieces generalizing space with
  | nil => rw [List.nil_append, List.head?_nil, Option.or_none]
  | cons piece pieces ih =>
      have hpieces : forall other, other ∈ pieces -> other.isWhiteSpace = true :=
        fun other hother => h other (List.mem_cons_of_mem piece hother)
      rw [List.cons_append, normalizeAfter_whiteSpace (h piece List.mem_cons_self), ih hpieces]
      cases space <;> rfl

theorem normalizeAfter_whiteSpaces {pieces : List Node}
    (h : forall piece, piece ∈ pieces -> piece.isWhiteSpace = true) (before space : Option Node) :
    normalizeAfter before space pieces = [] := by
  have hrest := normalizeAfter_whiteSpaces_append h before space []
  rwa [List.append_nil, normalizeAfter] at hrest

theorem gap_none (before : Option Node) (after : Node) : gap before none after = [] := by
  cases before <;> rfl

theorem gap_eq (before space : Option Node) (after : Node) :
    gap before space after = [] ∨
      exists piece, space = some piece ∧ gap before space after = [piece] := by
  unfold gap
  split
  · split
    · exact Or.inl rfl
    · exact Or.inr ⟨_, rfl, rfl⟩
  · exact Or.inl rfl

theorem normalizeAfter_normalizeAfter (before space : Option Node) (nodes : List Node)
    (hspace : forall piece, piece ∈ space -> piece.isWhiteSpace = true) :
    normalizeAfter before none (normalizeAfter before space nodes) =
      normalizeAfter before space nodes := by
  induction nodes generalizing before space with
  | nil => rfl
  | cons node rest ih =>
      cases hnode : node.isWhiteSpace with
      | true =>
          rw [normalizeAfter_whiteSpace hnode]
          refine ih before _ ?_
          intro piece hpiece
          cases space with
          | none =>
              cases hpiece
              exact hnode
          | some space => exact hspace piece hpiece
      | false =>
          have hrest := ih (some node) none (by rintro _ ⟨⟩)
          rw [normalizeAfter_node hnode]
          rcases gap_eq before space node with hgap | ⟨piece, rfl, hgap⟩
          · rw [hgap, List.nil_append, normalizeAfter_node hnode, gap_none, hrest]
            rfl
          · rw [hgap, List.singleton_append, normalizeAfter_whiteSpace (hspace piece rfl)]
            change normalizeAfter before (some piece) (node :: _) = _
            rw [normalizeAfter_node hnode, hgap, hrest]
            rfl

/-- Normal whitespace stays as it is. -/
theorem normalize_normalize (nodes : List Node) : normalize (normalize nodes) = normalize nodes :=
  normalizeAfter_normalizeAfter none none nodes (by rintro _ ⟨⟩)

theorem normalizeAfter_ends (before space : Option Node) (nodes : List Node) :
    normalizeAfter before space nodes = [] ∨
      exists front last, normalizeAfter before space nodes = front ++ [last] ∧
        last.isWhiteSpace = false := by
  induction nodes generalizing before space with
  | nil => exact Or.inl rfl
  | cons node rest ih =>
      cases hnode : node.isWhiteSpace with
      | true =>
          rw [normalizeAfter_whiteSpace hnode]
          exact ih before _
      | false =>
          rw [normalizeAfter_node hnode]
          rcases ih (some node) none with hnil | ⟨front, last, heq, hlast⟩
          · rw [hnil]
            exact Or.inr ⟨gap before space node, node, rfl, hnode⟩
          · rw [heq]
            refine Or.inr ⟨gap before space node ++ node :: front, last, ?_, hlast⟩
            rw [List.append_assoc, List.cons_append]

theorem normalizeAfter_begins (space : Option Node) (nodes : List Node) :
    normalizeAfter none space nodes = [] ∨
      exists first back, normalizeAfter none space nodes = first :: back ∧
        first.isWhiteSpace = false := by
  induction nodes generalizing space with
  | nil => exact Or.inl rfl
  | cons node rest ih =>
      cases hnode : node.isWhiteSpace with
      | true =>
          rw [normalizeAfter_whiteSpace hnode]
          exact ih _
      | false =>
          rw [normalizeAfter_node hnode]
          exact Or.inr ⟨node, _, rfl, hnode⟩

end Value
end Stylesheet
