import Mathlib.Data.List.Defs
import Stylesheet.Proofs.Value.Derivation

/-!
# Normal whitespace in closed form

A list of nodes is its solid nodes and the whitespace in the gaps around them: in front of the
first one, between two of them, and behind the last one.  Main statement: normalising keeps the
solid nodes, and of each gap the first piece, if the gap lies between two nodes that need it.
-/

namespace Stylesheet
namespace Value

/-- A node that is no whitespace. -/
def isSolid (node : Node) : Bool :=
  !node.isWhiteSpace

/-- The nodes of a list that are no whitespace. -/
def solids (nodes : List Node) : List Node :=
  nodes.filter isSolid

/-- The whitespace in front of the first solid node, between two of them, and behind the last. -/
def gaps (nodes : List Node) : List (List Node) :=
  nodes.splitOnP isSolid

/--
What is kept of a gap: its first piece, if it has one, between two nodes neither of which is one of
the operators that need no whitespace.
-/
def kept : (before : Option Node) -> (pieces : List Node) -> (after : Option Node) -> List Node
  | some before, piece :: _, some after =>
      if isTight before || isTight after then [] else [piece]
  | _, _, _ => []

/-- What is kept of each gap. -/
def keptGaps (nodes : List Node) : List (List Node) :=
  List.zipWith3 kept (none :: (solids nodes).map some) (gaps nodes)
    ((solids nodes).map some ++ [none])

/-! ## Gaps -/

section Gaps

variable {pieces : List Node} {node : Node}

theorem isSolid_of_isWhiteSpace (h : node.isWhiteSpace = true) : isSolid node = false := by
  rw [isSolid, h, Bool.not_true]

theorem gaps_whiteSpaces (h : forall piece, piece ∈ pieces -> piece.isWhiteSpace = true) :
    gaps pieces = [pieces] :=
  List.splitOnP_eq_singleton fun piece hpiece => isSolid_of_isWhiteSpace (h piece hpiece)

theorem gaps_append_cons (h : forall piece, piece ∈ pieces -> piece.isWhiteSpace = true)
    (hnode : isSolid node = true) (rest : List Node) :
    gaps (pieces ++ node :: rest) = pieces :: gaps rest :=
  List.splitOnP_append_cons_of_forall_mem
    (fun piece hpiece => isSolid_of_isWhiteSpace (h piece hpiece)) node hnode rest

theorem solids_whiteSpaces (h : forall piece, piece ∈ pieces -> piece.isWhiteSpace = true) :
    solids pieces = [] :=
  List.filter_eq_nil_iff.mpr fun piece hpiece =>
    ne_true_of_eq_false (isSolid_of_isWhiteSpace (h piece hpiece))

theorem solids_append_cons (h : forall piece, piece ∈ pieces -> piece.isWhiteSpace = true)
    (hnode : isSolid node = true) (rest : List Node) :
    solids (pieces ++ node :: rest) = node :: solids rest := by
  have hpieces := solids_whiteSpaces h
  unfold solids at hpieces ⊢
  rw [List.filter_append, hpieces, List.nil_append, List.filter_cons_of_pos hnode]

/-- A list of nodes is built from its end: a last gap, and a gap with the solid node behind it. -/
theorem gap_induction {motive : List Node -> Prop}
    (last : forall pieces, (forall piece, piece ∈ pieces -> piece.isWhiteSpace = true) ->
      motive pieces)
    (solid : forall pieces node rest,
      (forall piece, piece ∈ pieces -> piece.isWhiteSpace = true) -> isSolid node = true ->
        motive rest -> motive (pieces ++ node :: rest))
    (nodes : List Node) : motive nodes := by
  -- The gap in front is carried along until the node that ends it comes.
  suffices h : forall pieces, (forall piece, piece ∈ pieces -> piece.isWhiteSpace = true) ->
      motive (pieces ++ nodes) by
    have hnil : motive ([] ++ nodes) := h [] (by simp)
    exact hnil
  induction nodes with
  | nil =>
      intro pieces hpieces
      rw [List.append_nil]
      exact last pieces hpieces
  | cons node rest ih =>
      intro pieces hpieces
      cases hnode : node.isWhiteSpace with
      | true =>
          rw [List.append_cons]
          apply ih
          intro piece hpiece
          rcases List.mem_append.mp hpiece with hpiece | hpiece
          · exact hpieces piece hpiece
          · rw [List.mem_singleton.mp hpiece]
            exact hnode
      | false =>
          have hsolid : isSolid node = true := by rw [isSolid, hnode, Bool.not_false]
          have hrest : motive ([] ++ rest) := ih [] (by simp)
          exact solid pieces node rest hpieces hsolid hrest

/-- The solid nodes and the gaps around them make up the list. -/
theorem eq_of_solids_of_gaps {nodes others : List Node} (hsolids : solids nodes = solids others)
    (hgaps : gaps nodes = gaps others) : nodes = others := by
  have hnodes := List.splitOnP_spec (p := isSolid) nodes
  have hothers := List.splitOnP_spec (p := isSolid) others
  unfold solids gaps at *
  rw [hsolids, hgaps] at hnodes
  exact hnodes.symm.trans hothers

end Gaps

/-! ## Normalising -/

section Normalizing

variable {pieces : List Node} {node : Node}

theorem gap_eq_kept (before : Option Node) (pieces : List Node) (node : Node) :
    gap before pieces.head? node = kept before pieces (some node) := by
  cases before <;> cases pieces <;> rfl

/-- A gap and the solid node behind it. -/
theorem normalizeAfter_append_cons
    (h : forall piece, piece ∈ pieces -> piece.isWhiteSpace = true) (hnode : isSolid node = true)
    (before : Option Node) (rest : List Node) :
    normalizeAfter before none (pieces ++ node :: rest) =
      kept before pieces (some node) ++ node :: normalizeAfter (some node) none rest := by
  have hwhite : node.isWhiteSpace = false := by
    rwa [isSolid, Bool.not_eq_true'] at hnode
  rw [normalizeAfter_whiteSpaces_append h, Option.none_or, normalizeAfter_node hwhite, gap_eq_kept]

theorem kept_none (before : Option Node) (pieces : List Node) : kept before pieces none = [] := by
  cases before <;> cases pieces <;> rfl

theorem isWhiteSpace_of_mem_kept
    (h : forall piece, piece ∈ pieces -> piece.isWhiteSpace = true) {before after : Option Node} :
    forall piece, piece ∈ kept before pieces after -> piece.isWhiteSpace = true := by
  intro piece hpiece
  unfold kept at hpiece
  split at hpiece
  · split at hpiece
    · cases hpiece
    · rw [List.mem_singleton.mp hpiece]
      exact h _ List.mem_cons_self
  · cases hpiece

/-- The solid nodes stay, and each gap is left as the nodes around it ask for. -/
theorem solids_and_gaps_normalizeAfter (before : Option Node) (nodes : List Node) :
    solids (normalizeAfter before none nodes) = solids nodes ∧
      gaps (normalizeAfter before none nodes) =
        List.zipWith3 kept (before :: (solids nodes).map some) (gaps nodes)
          ((solids nodes).map some ++ [none]) := by
  induction nodes using gap_induction generalizing before with
  | last pieces hpieces =>
      rw [normalizeAfter_whiteSpaces hpieces, solids_whiteSpaces hpieces, gaps_whiteSpaces hpieces]
      refine ⟨rfl, ?_⟩
      rw [List.map_nil, List.nil_append, List.zipWith3, kept_none]
      rfl
  | solid pieces node rest hpieces hnode ih =>
      rcases ih (some node) with ⟨hsolids, hgaps⟩
      have hkept : forall piece, piece ∈ kept before pieces (some node) ->
          piece.isWhiteSpace = true :=
        isWhiteSpace_of_mem_kept hpieces
      rw [normalizeAfter_append_cons hpieces hnode, solids_append_cons hpieces hnode,
        gaps_append_cons hpieces hnode, solids_append_cons hkept hnode,
        gaps_append_cons hkept hnode, hsolids, hgaps]
      exact ⟨rfl, rfl⟩

end Normalizing

/--
Normal whitespace: the same solid nodes, and of every gap what the nodes around it ask for.
Normalising finds it, and leaves it as it is.
-/
theorem eq_normalize_iff_and_normalize_twice (nodes : List Node) :
    (forall normal, normal = normalize nodes <->
      solids normal = solids nodes ∧ gaps normal = keptGaps nodes) ∧
      normalize (normalize nodes) = normalize nodes := by
  rcases solids_and_gaps_normalizeAfter none nodes with ⟨hsolids, hgaps⟩
  refine ⟨?_, normalize_normalize nodes⟩
  intro normal
  constructor
  · rintro rfl
    exact ⟨hsolids, hgaps⟩
  · rintro ⟨hsolids', hgaps'⟩
    exact eq_of_solids_of_gaps (hsolids'.trans hsolids.symm) (hgaps'.trans hgaps.symm)

end Value
end Stylesheet
