import Mathlib.Data.List.Chain
import Mathlib.Data.List.Nodup
import Stylesheet.Proofs.Mapping.Recording

/-!
# Recorded mappings are well formed

A range end is held back until a mapping starts somewhere else, and a source gets its index
when it is first met.  Main statement: whatever nodes are written, recorded mappings go
forward through the text, range ends stand between mappings with a source, and the sources are
those that the mappings name, in the order in which they name them.
-/

namespace Stylesheet
namespace Mapping

/-- The places in sources that mappings name. -/
def originals (mappings : List Mapping) : List SourcePlace :=
  mappings.filterMap source

@[simp] theorem originals_cons_some (place : Place) (source : SourcePlace)
    (mappings : List Mapping) :
    originals (⟨place, some source⟩ :: mappings) = source :: originals mappings := rfl

@[simp] theorem originals_cons_none (place : Place) (mappings : List Mapping) :
    originals (⟨place, none⟩ :: mappings) = originals mappings := rfl

theorem originals_reverse (mappings : List Mapping) :
    originals mappings.reverse = (originals mappings).reverse :=
  List.filterMap_reverse

/-- Mappings of a text that stops at a place, with the sources that they name by indexes. -/
structure AreWellFormed (sources : List String) (stop : Place) (mappings : List Mapping) :
    Prop where
  sorted : mappings.Pairwise fun left right => left.generated <= right.generated
  passed : forall mapping, mapping ∈ mappings -> mapping.generated <= stop
  begun : forall first, first ∈ mappings.head? -> first.isRangeEnd = false
  apart : mappings.IsChain fun left right => left.isRangeEnd = true -> right.isRangeEnd = false
  changing : (originals mappings).IsChain (· ≠ ·)
  distinct : sources.Nodup
  named : forall original, original ∈ originals mappings -> original.index < sources.length
  used : forall index, index < sources.length ->
    exists original, original ∈ originals mappings ∧ original.index = index
  -- the indexes, each of them where it is met first
  ordered : ((originals mappings).map SourcePlace.index).eraseDups = List.range sources.length

end Mapping

namespace Recorder

open Mapping

/-- The indexes of the sources in the order in which mappings named them. -/
def uses (mappings : List Mapping) : List Nat :=
  (originals mappings).reverse.map SourcePlace.index

/--
What holds of a recorder between two nodes.  Only `finish` records a range end without a
mapping behind it, so that the latest mapping is never one.
-/
structure Steady (recorder : Recorder) : Prop where
  latest : recorder.latest = (originals recorder.mappings).head?
  ahead : forall mapping, mapping ∈ recorder.mappings.head? -> mapping.isRangeEnd = false
  first : forall mapping, mapping ∈ recorder.mappings.getLast? -> mapping.isRangeEnd = false
  apart : recorder.mappings.IsChain fun later earlier =>
    earlier.isRangeEnd = true -> later.isRangeEnd = false
  started : recorder.pendingEnd ≠ none -> recorder.mappings ≠ []
  changing : (originals recorder.mappings).IsChain (· ≠ ·)
  distinct : recorder.sources.Nodup
  ordered : (uses recorder.mappings).eraseDups = List.range recorder.sources.length

/-! ## Sources -/

theorem nodup_addSource {sources : List String} (h : sources.Nodup) (name : String) :
    (addSource sources name).Nodup := by
  unfold addSource
  split
  · exact h
  · rename_i hnew
    refine List.nodup_append.mpr ⟨h, List.nodup_singleton name, ?_⟩
    intro other hother last hlast heq
    rw [List.mem_singleton.mp hlast] at heq
    exact hnew (List.contains_iff_mem.mpr (heq ▸ hother))

/-- The index of a source is a known one, or the next one, and then the source is added. -/
theorem addSource_cases (sources : List String) (name : String) :
    addSource sources name = sources ∧
        (addSource sources name).idxOf name < sources.length ∨
      (addSource sources name).length = sources.length + 1 ∧
        (addSource sources name).idxOf name = sources.length := by
  unfold addSource
  cases hknown : sources.contains name with
  | true =>
      rw [if_pos rfl]
      exact Or.inl ⟨rfl, List.idxOf_lt_length_of_mem (List.contains_iff_mem.mp hknown)⟩
  | false =>
      have hnew : name ∉ sources := by
        intro hmem
        rw [List.contains_iff_mem.mpr hmem] at hknown
        cases hknown
      rw [if_neg Bool.false_ne_true]
      refine Or.inr ⟨List.length_append, ?_⟩
      rw [List.idxOf_append_of_notMem hnew, List.idxOf_cons_self, Nat.add_zero]

theorem eraseDups_concat_of_mem {α : Type} [DecidableEq α] {items : List α} {item : α}
    (h : item ∈ items) : (items ++ [item]).eraseDups = items.eraseDups := by
  have hnone : [item].removeAll items = [] := by
    rw [List.removeAll, List.filter_singleton, List.elem_eq_true_of_mem h]
    rfl
  rw [List.eraseDups_append, hnone, List.eraseDups_nil, List.append_nil]

theorem eraseDups_concat_of_not_mem {α : Type} [DecidableEq α] {items : List α} {item : α}
    (h : item ∉ items) : (items ++ [item]).eraseDups = items.eraseDups ++ [item] := by
  have hself : [item].removeAll items = [item] := by
    simp [List.removeAll, h]
  rw [List.eraseDups_append, hself, List.eraseDups_cons]
  rfl

/-! ## Steps -/

theorem mem_uses_iff {mappings : List Mapping} {index : Nat} :
    index ∈ uses mappings <->
      exists original, original ∈ originals mappings ∧ original.index = index := by
  rw [uses, List.mem_map]
  simp only [List.mem_reverse]

namespace Steady

variable {recorder : Recorder}

theorem empty : Steady .empty where
  latest := rfl
  ahead := by
    intro mapping hmem
    cases hmem
  first := by
    intro mapping hmem
    cases hmem
  apart := List.IsChain.nil
  started := by
    intro hpending
    exact absurd rfl hpending
  changing := List.IsChain.nil
  distinct := List.nodup_nil
  ordered := rfl

theorem mem_uses (h : Steady recorder) {index : Nat} :
    index ∈ uses recorder.mappings <-> index < recorder.sources.length := by
  rw [← List.mem_eraseDups, h.ordered, List.mem_range]

theorem index_lt (h : Steady recorder) {original : SourcePlace}
    (hmem : original ∈ originals recorder.mappings) :
    original.index < recorder.sources.length :=
  h.mem_uses.mp (mem_uses_iff.mpr ⟨original, hmem, rfl⟩)

/-- The source of a mapping is one of those before it, or it is added behind them. -/
theorem ordered_concat (h : Steady recorder) {sources : List String} {index : Nat}
    (hindex : sources = recorder.sources ∧ index < recorder.sources.length ∨
      sources.length = recorder.sources.length + 1 ∧ index = recorder.sources.length) :
    (uses recorder.mappings ++ [index]).eraseDups = List.range sources.length := by
  rcases hindex with ⟨rfl, hlt⟩ | ⟨hlength, rfl⟩
  · rw [eraseDups_concat_of_mem (h.mem_uses.mpr hlt), h.ordered]
  · have hnew : recorder.sources.length ∉ uses recorder.mappings := by
      intro hmem
      exact Nat.lt_irrefl _ (h.mem_uses.mp hmem)
    rw [eraseDups_concat_of_not_mem hnew, h.ordered, hlength, List.range_succ]

/-- The mappings before a new one: the pending range end may be put behind those there are. -/
theorem ended (h : Steady recorder) (place : Place) (source : SourcePlace) :
    exists mappings, (recorder.map source place).mappings = ⟨place, some source⟩ :: mappings ∧
      originals mappings = originals recorder.mappings ∧
      (forall mapping, mapping ∈ mappings.getLast? -> mapping.isRangeEnd = false) ∧
      mappings.IsChain fun later earlier =>
        earlier.isRangeEnd = true -> later.isRangeEnd = false := by
  unfold Recorder.map
  cases hstop : recorder.pendingEnd with
  | none => exact ⟨_, rfl, rfl, h.first, h.apart⟩
  | some stop =>
      by_cases heq : stop = place
      · simp only [if_pos heq]
        exact ⟨_, rfl, rfl, h.first, h.apart⟩
      · simp only [if_neg heq]
        refine ⟨_, rfl, rfl, ?_, List.isChain_cons.mpr ⟨?_, h.apart⟩⟩
        · have hstarted : recorder.mappings ≠ [] := by
            refine h.started ?_
            rw [hstop]
            exact Option.some_ne_none stop
          rcases List.exists_cons_of_ne_nil hstarted with ⟨head, rest, hmappings⟩
          have hfirst := h.first
          rw [hmappings] at hfirst ⊢
          exact hfirst
        · intro mapping hmem hend
          rw [h.ahead mapping hmem] at hend
          cases hend

theorem map (h : Steady recorder) {sources : List String} {source : SourcePlace} (place : Place)
    (hnew : recorder.latest ≠ some source) (hdistinct : sources.Nodup)
    (hindex : sources = recorder.sources ∧ source.index < recorder.sources.length ∨
      sources.length = recorder.sources.length + 1 ∧ source.index = recorder.sources.length) :
    Steady (Recorder.map { recorder with sources := sources } source place) := by
  rcases h.ended place source with ⟨mappings, heq, horiginals, hfirst, hapart⟩
  have hmappings : (Recorder.map { recorder with sources := sources } source place).mappings =
      ⟨place, some source⟩ :: mappings := heq
  refine ⟨?_, ?_, ?_, ?_, ?_, ?_, hdistinct, ?_⟩
  · rw [hmappings]
    rfl
  · intro mapping hmem
    rw [hmappings] at hmem
    cases hmem
    rfl
  · intro mapping hmem
    rw [hmappings] at hmem
    cases mappings with
    | nil =>
        cases hmem
        rfl
    | cons head rest => exact hfirst mapping hmem
  · rw [hmappings]
    refine List.isChain_cons.mpr ⟨?_, hapart⟩
    intro mapping _ _
    rfl
  · intro hpending
    exact absurd rfl hpending
  · rw [hmappings, originals_cons_some, horiginals]
    refine List.isChain_cons.mpr ⟨?_, h.changing⟩
    rintro original horiginal rfl
    rw [h.latest] at hnew
    exact hnew horiginal
  · have huses : uses (⟨place, some source⟩ :: mappings) =
        uses recorder.mappings ++ [source.index] := by
      rw [uses, originals_cons_some, horiginals, List.reverse_cons, List.map_append]
      rfl
    rw [hmappings, huses]
    exact h.ordered_concat hindex

/-- A node that starts where the latest mapping did is not mapped, and its source is known. -/
theorem enter (h : Steady recorder) (node : Node) (place : Place) :
    Steady (recorder.enter node place) := by
  unfold Recorder.enter
  split
  · rename_i location _ _
    have hindex := addSource_cases recorder.sources location.sourceName
    have hdistinct := nodup_addSource h.distinct location.sourceName
    dsimp only
    split
    · rename_i hsame
      have hmem : SourcePlace.mk _ _ _ ∈ originals recorder.mappings :=
        List.mem_of_head? (h.latest.symm.trans hsame)
      rcases hindex with ⟨hsources, _⟩ | ⟨_, hlast⟩
      · rw [hsources]
        exact h
      · exact absurd (h.index_lt hmem) (Nat.not_lt_of_le (Nat.le_of_eq hlast.symm))
    · rename_i hnew
      exact h.map place hnew hdistinct hindex
  · exact h

theorem leave (h : Steady recorder) (node : Node) (place : Place) :
    Steady (recorder.leave node place) := by
  unfold Recorder.leave
  split
  · rename_i hstarted
    rw [Bool.and_eq_true, Bool.not_eq_true', List.isEmpty_eq_false_iff] at hstarted
    exact ⟨h.latest, h.ahead, h.first, h.apart, fun _ => hstarted.right, h.changing, h.distinct,
      h.ordered⟩
  · exact h

theorem follow {place : Place} {pieces : List Piece} (h : Steady recorder) :
    Steady (recorder.follow place pieces) := by
  induction pieces generalizing recorder place with
  | nil => exact h
  | cons piece rest ih =>
      cases piece with
      | text written => exact ih h
      | enter node => exact ih (h.enter node place)
      | leave node => exact ih (h.leave node place)

/-- A last range end stands behind a mapping that is none. -/
theorem finish_cases (h : Steady recorder) :
    recorder.finish = recorder.mappings.reverse ∨
      exists stop, recorder.finish = recorder.mappings.reverse ++ [⟨stop, none⟩] ∧
        recorder.mappings ≠ [] := by
  unfold Recorder.finish
  cases hstop : recorder.pendingEnd with
  | none => exact Or.inl rfl
  | some stop =>
      have hstarted : recorder.mappings ≠ [] := by
        refine h.started ?_
        rw [hstop]
        exact Option.some_ne_none stop
      dsimp only
      split
      · exact Or.inl rfl
      · exact Or.inr ⟨stop, List.reverse_cons, hstarted⟩

theorem originals_finish (h : Steady recorder) :
    originals recorder.finish = (originals recorder.mappings).reverse := by
  rcases h.finish_cases with heq | ⟨stop, heq, _⟩
  · rw [heq, originals_reverse]
  · rw [heq, ← originals_reverse, originals, List.filterMap_append]
    exact List.append_nil _

theorem begun_finish (h : Steady recorder) (first : Mapping)
    (hmem : first ∈ recorder.finish.head?) : first.isRangeEnd = false := by
  refine h.first first ?_
  rcases h.finish_cases with heq | ⟨stop, heq, hstarted⟩
  · rw [heq, List.head?_reverse] at hmem
    exact hmem
  · rw [heq, List.head?_append_of_ne_nil _ (List.reverse_ne_nil_iff.mpr hstarted),
      List.head?_reverse] at hmem
    exact hmem

theorem apart_finish (h : Steady recorder) : recorder.finish.IsChain fun left right =>
    left.isRangeEnd = true -> right.isRangeEnd = false := by
  have hreverse : recorder.mappings.reverse.IsChain fun left right =>
      left.isRangeEnd = true -> right.isRangeEnd = false :=
    List.isChain_reverse.mpr h.apart
  rcases h.finish_cases with heq | ⟨stop, heq, _⟩
  · rw [heq]
    exact hreverse
  · rw [heq]
    refine List.isChain_append.mpr ⟨hreverse, List.isChain_singleton _, ?_⟩
    intro last hlast _ _ hend
    rw [List.getLast?_reverse] at hlast
    rw [h.ahead last hlast] at hend
    cases hend

theorem areWellFormed_finish {place : Place} (h : Steady recorder)
    (horderly : Orderly recorder place) :
    AreWellFormed recorder.sources place recorder.finish where
  sorted := horderly.finish
  passed := by
    intro mapping hmem
    have hpassed : Holds recorder fun other => other <= place :=
      ⟨horderly.passed, fun stop hstop => (horderly.ended stop hstop).left⟩
    exact hpassed.finish hmem
  begun := h.begun_finish
  apart := h.apart_finish
  changing := by
    rw [h.originals_finish]
    refine List.isChain_reverse.mpr (h.changing.imp ?_)
    intro left right hne heq
    exact hne heq.symm
  distinct := h.distinct
  named := by
    intro original hmem
    rw [h.originals_finish, List.mem_reverse] at hmem
    exact h.index_lt hmem
  used := by
    intro index hindex
    rcases mem_uses_iff.mp (h.mem_uses.mpr hindex) with ⟨original, hmem, heq⟩
    refine ⟨original, ?_, heq⟩
    rw [h.originals_finish, List.mem_reverse]
    exact hmem
  ordered := by
    rw [h.originals_finish]
    exact h.ordered

end Steady
end Recorder

namespace Writer

theorem foldl_node (nodes : List Node) (writer : Writer) :
    nodes.foldl node writer = (nodes.flatMap Node.pieces).foldl piece writer := by
  rw [List.foldl_flatMap]
  rfl

/-- What is recorded while nodes are written, whatever they are and wherever they come from. -/
theorem areWellFormed_foldl_node (nodes : List Node) :
    exists recorder, (nodes.foldl node (start (some .empty))).recorder = some recorder ∧
      Mapping.AreWellFormed recorder.sources
        (Place.start.after (nodes.foldl node (start (some .empty))).output.text.toList)
        recorder.finish := by
  rw [foldl_node, foldl_piece]
  refine ⟨_, rfl, ?_⟩
  have horderly : Recorder.Orderly (Recorder.empty.follow .start (nodes.flatMap Node.pieces))
      (Place.start.after (Piece.chars (nodes.flatMap Node.pieces))) :=
    (Recorder.Orderly.empty .start).follow
  have hwellFormed := Recorder.Steady.empty.follow.areWellFormed_finish horderly
  rw [start, Output.empty, String.empty_append, String.toList_ofList]
  exact hwellFormed

end Writer
end Stylesheet
