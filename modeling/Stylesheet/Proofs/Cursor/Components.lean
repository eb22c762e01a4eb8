import Stylesheet.Proofs.Cursor.Checks
import Stylesheet.Proofs.Reread.Components

/-!
# Components by index

Components and media queries are read by loops over an index.  A component that is a group moves
the index behind its closer, and what stands within it is read by a recursive call, which is
checked to be on a shorter run.
-/

namespace Stylesheet

namespace Value

/-! ## Trivia at the ends -/

variable {source : SourceName}

/-- The whitespace that trivia stands for. -/
def spaces (source : SourceName) (trivia : List Token) : List Node :=
  trivia.map fun token => Node.ofToken source token (.whiteSpace " ")

theorem single?_of_trivia {token : Token} (h : token.isTrivia = true) :
    single? source token = some (.whiteSpace " ") := by
  unfold Token.isTrivia TokenKind.isTrivia at h
  split at h <;> rename_i hkind
  · simp only [single?, hkind]
  · simp only [single?, hkind]
  · cases h

theorem spacedComponents?_trivia_append (source : SourceName) {trivia : List Token}
    (h : forall token, token ∈ trivia -> token.isTrivia = true) (run : List Token) :
    spacedComponents? source (trivia ++ run) =
      (spacedComponents? source run).map (spaces source trivia ++ ·) := by
  induction trivia with
  | nil => exact Option.map_id'.symm
  | cons token trivia ih =>
      rw [List.cons_append,
        spacedComponents?_single (single?_of_trivia (h token List.mem_cons_self)),
        ih fun other hother => h other (List.mem_cons_of_mem token hother), Option.map_map]
      rfl

/-- Trivia closes no group. -/
theorem splitGroup?_append_trivia {trivia : List Token}
    (h : forall token, token ∈ trivia -> token.isTrivia = true) (depth : Nat) (run : List Token) :
    Run.splitGroup? depth (run ++ trivia) =
      (Run.splitGroup? depth run).map fun group => { group with rest := group.rest ++ trivia } := by
  induction run generalizing depth with
  | nil =>
      rw [List.nil_append, Run.splitGroup?, Option.map_none]
      induction trivia with
      | nil => rfl
      | cons token trivia ih =>
          have htrivia := h token List.mem_cons_self
          rw [Run.splitGroup?_inside (by simp [(Run.plain_of_isTrivia htrivia).2]),
            Run.depthAfter_trivia htrivia,
            ih fun other hother => h other (List.mem_cons_of_mem token hother)]
          rfl
  | cons token rest ih =>
      rw [List.cons_append, Run.splitGroup?, Run.splitGroup?, ih]
      split
      · rfl
      · cases Run.splitGroup? (Run.depthAfter depth token) rest <;> rfl

theorem spacedComponents?_append_trivia {trivia : List Token}
    (h : forall token, token ∈ trivia -> token.isTrivia = true) (run : List Token) :
    spacedComponents? source (run ++ trivia) =
      (spacedComponents? source run).map (· ++ spaces source trivia) := by
  have hback : spacedComponents? source trivia = some (spaces source trivia) := by
    have happend := spacedComponents?_trivia_append source h []
    rw [List.append_nil, spacedComponents?, Option.map_some, List.append_nil] at happend
    exact happend
  fun_induction spacedComponents? source run with
  | case1 => exact hback
  | case2 token rest construct hsingle ih =>
      rw [List.cons_append, spacedComponents?_single hsingle, ih, Option.map_map, Option.map_map]
      rfl
  | case3 token rest hsingle hopens hgroup =>
      rw [List.cons_append, spacedComponents?_group hopens, splitGroup?_append_trivia h, hgroup]
      rfl
  | case4 token rest hsingle hopens content closer after hgroup hcontent _ =>
      rw [List.cons_append, spacedComponents?_group hopens, splitGroup?_append_trivia h, hgroup,
        Option.map_some, Option.bind_some, hcontent]
      rfl
  | case5 token rest hsingle hopens content closer after hgroup children hcontent _ ihcontent =>
      rename_i ihafter
      rw [List.cons_append, spacedComponents?_group hopens, splitGroup?_append_trivia h, hgroup,
        Option.map_some, Option.bind_some, hcontent, Option.bind_some, ihafter, Option.map_map,
        Option.map_map]
      rfl
  | case6 token rest hsingle hopens =>
      rw [List.cons_append, spacedComponents?_none hsingle (Bool.not_eq_true _ ▸ hopens)]
      rfl

/-- In front of every node whitespace makes no difference. -/
theorem normalizeAfter_space (space : Option Node) (nodes : List Node) :
    normalizeAfter none space nodes = normalizeAfter none none nodes := by
  induction nodes generalizing space with
  | nil => rfl
  | cons node rest ih =>
      cases hnode : node.isWhiteSpace with
      | true =>
          rw [normalizeAfter_whiteSpace hnode, normalizeAfter_whiteSpace hnode, ih,
            ih (none.orElse _)]
      | false =>
          rw [normalizeAfter_node hnode, normalizeAfter_node hnode]
          rfl

theorem normalizeAfter_append_whiteSpaces {spaces : List Node}
    (h : forall node, node ∈ spaces -> node.isWhiteSpace = true) (before space : Option Node)
    (nodes : List Node) :
    normalizeAfter before space (nodes ++ spaces) = normalizeAfter before space nodes := by
  induction nodes generalizing before space with
  | nil => exact normalizeAfter_whiteSpaces h before space
  | cons node rest ih =>
      rw [List.cons_append, normalizeAfter, normalizeAfter, ih, ih]

theorem normalize_whiteSpaces_append {spaces : List Node}
    (h : forall node, node ∈ spaces -> node.isWhiteSpace = true) (nodes : List Node) :
    normalize (spaces ++ nodes) = normalize nodes := by
  rw [normalize, normalizeAfter_whiteSpaces_append h, normalizeAfter_space]
  rfl

/-- Trivia at the ends of a run does not change its components. -/
theorem components?_trim (run : List Token) :
    components? source (Run.trim run) = components? source run := by
  have hspaces : forall trivia node, node ∈ spaces source trivia -> node.isWhiteSpace = true := by
    intro trivia node hnode
    rcases List.mem_map.mp hnode with ⟨token, _, rfl⟩
    rfl
  rcases Run.trim_eq_append run with ⟨front, back, hrun, hfront, hback⟩
  conv_rhs => rw [hrun]
  unfold components?
  rw [List.append_assoc, spacedComponents?_trivia_append source hfront,
    spacedComponents?_append_trivia hback, Option.map_map, Option.map_map]
  congr 1
  funext nodes
  simp only [Function.comp_apply]
  rw [normalize_whiteSpaces_append (hspaces front)]
  exact (normalizeAfter_append_whiteSpaces (hspaces back) none none nodes).symm

end Value

namespace Cursor

variable {source : SourceName}

/-! ## Components -/

/-- Reads a group; `nested` reads what stands between its brackets. -/
def readGroup (source : SourceName) (nested : List Token -> Checked (Option (List Node)))
    (group : List Token) : Checked (Option Node) := do
  let opener ← tokenAt group 0
  let inner ← trim (← interior group)
  match ← nested inner with
  | none => return none
  | some children => return some (Node.spanning source group (Value.group opener.kind children))

/--
Reads components from an index on, behind the nodes read so far, the latest first; `nested`
reads what stands within a group.
-/
def componentsFrom (source : SourceName) (nested : List Token -> Checked (Option (List Node)))
    (run : List Token) (nodes : List Node) (i : Nat) : Checked (Option (List Node)) :=
  if _h : i < run.length then do
    let token ← tokenAt run i
    match Value.single? source token with
    | some construct =>
        componentsFrom source nested run (Node.ofToken source token construct :: nodes) (i + 1)
    | none =>
        if Value.opensGroup token then
          match matchingClose? run i with
          | none => return none
          | some close =>
              let group ← slice run i (close + 1)
              match ← readGroup source nested group with
              | none => return none
              | some node =>
                  if _h' : i < close + 1 then
                    componentsFrom source nested run (node :: nodes) (close + 1)
                  else
                    .error .stall
        else
          return none
  else
    return some nodes.reverse
termination_by run.length - i

/-- The components of a run, if it is a list of components. -/
def components (source : SourceName) (run : List Token) : Checked (Option (List Node)) := do
  let nested inner :=
    if _h : inner.length < run.length then components source inner else .error .descent
  let nodes ← componentsFrom source nested run [] 0
  return nodes.map Value.normalize
termination_by run.length

theorem readGroup_wholeGroup {nested : List Token -> Checked (Option (List Node))}
    {group : Run.Group}
    (hnested : nested (Run.trim group.content) =
      .ok (Value.components? source (Run.trim group.content))) (opener : Token) :
    readGroup source nested (wholeGroup opener group) =
      .ok ((Value.components? source group.content).map fun children =>
        Node.spanning source (wholeGroup opener group) (Value.group opener.kind children)) := by
  rw [readGroup, interior_wholeGroup, wholeGroup, List.cons_append, tokenAt_cons, ok_bind, ok_bind,
    trim_eq, ok_bind, hnested, ok_bind, Value.components?_trim]
  cases Value.components? source group.content <;> rfl

/-- A group is read by a recursive call, and the index moves behind it. -/
theorem componentsFrom_group {nested : List Token -> Checked (Option (List Node))} {opener : Token}
    (hopens : Value.opensGroup opener = true) (front rest : List Token) (nodes : List Node) :
    componentsFrom source nested (front ++ opener :: rest) nodes front.length =
      match Run.splitGroup? 0 rest with
      | none => .ok none
      | some group =>
          readGroup source nested (wholeGroup opener group) >>= fun
          | none => .ok none
          | some node =>
              componentsFrom source nested (front ++ wholeGroup opener group ++ group.rest)
                (node :: nodes) (front ++ wholeGroup opener group).length := by
  have hopener := (Value.isOpener_of_opensGroup hopens).1
  rw [componentsFrom, dif_pos (by simp), tokenAt_append, ok_bind]
  simp only [Value.single?_of_opensGroup hopens, hopens, if_true]
  cases hgroup : Run.splitGroup? 0 rest with
  | none => simp only [matchingClose?_append hopener, hgroup, Option.map_none, pure_eq_ok]
  | some group =>
      rcases exists_isClose hopener hgroup front with ⟨close, hclose⟩
      simp only [hclose.found, hclose.whole, ok_bind, dif_pos hclose.moves]
      rw [hclose.behind, wholeGroup_append hgroup]
      rfl

theorem nested_content {nested : List Token -> Checked (Option (List Node))} {rest : List Token}
    {group : Run.Group} (hgroup : Run.splitGroup? 0 rest = some group) (opener : Token)
    (hnested : forall inner, inner.length < (opener :: rest).length ->
      nested inner = .ok (Value.components? source inner)) :
    nested (Run.trim group.content) = .ok (Value.components? source (Run.trim group.content)) := by
  apply hnested
  have hlength := (Run.splitGroup?_lengths hgroup).1
  have htrim := Run.trim_length_le group.content
  rw [List.length_cons]
  omega

theorem componentsFrom_append {nested : List Token -> Checked (Option (List Node))}
    {rest : List Token}
    (hnested : forall inner, inner.length < rest.length ->
      nested inner = .ok (Value.components? source inner))
    (front : List Token) (nodes : List Node) :
    componentsFrom source nested (front ++ rest) nodes front.length =
      .ok ((Value.spacedComponents? source rest).map (nodes.reverse ++ ·)) := by
  fun_induction Value.spacedComponents? source rest generalizing front nodes with
  | case1 =>
      rw [componentsFrom, dif_neg (by simp)]
      simp
  | case2 token rest construct hsingle ih =>
      have hrest := ih (fun inner hinner => hnested inner (Nat.lt_succ_of_lt hinner))
        (front ++ [token]) (Node.ofToken source token construct :: nodes)
      rw [List.append_assoc, List.length_append, List.length_singleton, List.singleton_append]
        at hrest
      rw [componentsFrom, dif_pos (by simp), tokenAt_append, ok_bind]
      simp only [hsingle, hrest, Option.map_map]
      congr 2
      funext later
      simp
  | case3 token rest hsingle hopens hgroup =>
      rw [componentsFrom_group hopens, hgroup]
      rfl
  | case4 token rest hsingle hopens content closer after hgroup hcontent _ =>
      have hinner := nested_content hgroup token hnested
      rw [componentsFrom_group hopens, hgroup]
      simp only [readGroup_wholeGroup hinner, Value.components?, hcontent, ok_bind, Option.map_none]
  | case5 token rest hsingle hopens content closer after hgroup children hcontent _ ihcontent =>
      rename_i ihafter
      have hinner := nested_content hgroup token hnested
      have hlength := (Run.splitGroup?_lengths hgroup).2
      have hafter := ihafter (fun inner hinner => hnested inner (Nat.lt_trans hinner
        (Nat.lt_succ_of_lt hlength))) (front ++ wholeGroup token ⟨content, closer, after⟩)
      rw [componentsFrom_group hopens, hgroup]
      simp only [readGroup_wholeGroup hinner, Value.components?, hcontent, ok_bind,
        Option.map_some, hafter, Option.map_map]
      congr 2
      funext later
      simp only [Function.comp_apply, List.reverse_cons, List.append_assoc, List.singleton_append]
      rfl
  | case6 token rest hsingle hopens =>
      rw [componentsFrom, dif_pos (by simp), tokenAt_append, ok_bind]
      simp only [hsingle, hopens]
      rfl

@[simp] theorem components_eq (source : SourceName) (run : List Token) :
    components source run = .ok (Value.components? source run) := by
  induction hlength : run.length using Nat.strong_induction_on generalizing run with
  | _ length ih =>
      have hnested : forall inner, inner.length < run.length ->
          (if _h : inner.length < run.length then components source inner
            else .error .descent) = .ok (Value.components? source inner) := by
        intro inner hinner
        rw [dif_pos hinner]
        exact ih inner.length (hlength ▸ hinner) inner rfl
      have hfrom := componentsFrom_append hnested [] []
      rw [components]
      simp only [List.nil_append, List.length_nil, List.reverse_nil] at hfrom
      simp only [hfrom, ok_bind, pure_eq_ok, Option.map_map]
      rfl

end Cursor
end Stylesheet
