import Stylesheet.Proofs.Node.Starts
import Stylesheet.Proofs.Text.Place
import Stylesheet.Writer

/-!
# What a recorder keeps

A writer tells its recorder of nodes at the places that the text so far decides, so that
the recorder follows the pieces alone.  Main statements: the recorded places never go
back, and tracked nodes with different origins are mapped one by one.
-/

namespace Stylesheet
namespace Recorder

open Piece hiding enter leave

/-- The recorder behind pieces that are written from a place on. -/
def follow (recorder : Recorder) (place : Place) : List Piece -> Recorder
  | [] => recorder
  | .text written :: rest => follow recorder (place.after written.toList) rest
  | .enter node :: rest => follow (recorder.enter node place) place rest
  | .leave node :: rest => follow (recorder.leave node place) place rest

/-! ## Order -/

/-- The recorded places do not go back, up to the place where the text has come. -/
structure Orderly (recorder : Recorder) (place : Place) : Prop where
  sorted : recorder.mappings.Pairwise fun later earlier => earlier.generated <= later.generated
  passed : forall mapping, mapping ∈ recorder.mappings -> mapping.generated <= place
  ended : forall stop, stop ∈ recorder.pendingEnd ->
    stop <= place ∧ forall mapping, mapping ∈ recorder.mappings -> mapping.generated <= stop

namespace Orderly

variable {recorder : Recorder} {place : Place}

theorem empty (place : Place) : Orderly .empty place where
  sorted := List.Pairwise.nil
  passed := by
    intro mapping hmem
    cases hmem
  ended := by
    intro stop hmem
    cases hmem

theorem mono {later : Place} (h : Orderly recorder place) (hle : place <= later) :
    Orderly recorder later where
  sorted := h.sorted
  passed := by
    intro mapping hmem
    exact Place.le_trans (h.passed mapping hmem) hle
  ended := by
    intro stop hmem
    exact ⟨Place.le_trans (h.ended stop hmem).left hle, (h.ended stop hmem).right⟩

theorem push {source latest : Option SourcePlace} {sources : List String}
    (h : Orderly recorder place) :
    Orderly ⟨sources, ⟨place, source⟩ :: recorder.mappings, latest, none⟩ place where
  sorted := List.pairwise_cons.mpr ⟨h.passed, h.sorted⟩
  passed := by
    intro other hmem
    rcases List.mem_cons.mp hmem with rfl | hmem
    · exact Place.le_refl place
    · exact h.passed other hmem
  ended := by
    intro stop hmem
    cases hmem

/-- The range end that is pending comes before a mapping of the same place. -/
theorem stopped {stop : Place} (h : Orderly recorder place)
    (hstop : recorder.pendingEnd = some stop) :
    Orderly { recorder with mappings := ⟨stop, none⟩ :: recorder.mappings } place where
  sorted := List.pairwise_cons.mpr ⟨(h.ended stop hstop).right, h.sorted⟩
  passed := by
    intro mapping hmem
    rcases List.mem_cons.mp hmem with rfl | hmem
    · exact (h.ended stop hstop).left
    · exact h.passed mapping hmem
  ended := by
    intro other hother
    rw [show recorder.pendingEnd = some stop from hstop] at hother
    cases hother
    refine ⟨(h.ended stop hstop).left, ?_⟩
    intro mapping hmem
    rcases List.mem_cons.mp hmem with rfl | hmem
    · exact Place.le_refl stop
    · exact (h.ended stop hstop).right mapping hmem

theorem map (source : SourcePlace) (h : Orderly recorder place) :
    Orderly (recorder.map source place) place := by
  unfold Recorder.map
  cases hstop : recorder.pendingEnd with
  | none => exact h.push
  | some stop =>
      by_cases heq : stop = place
      · simp only [if_pos heq]
        exact h.push
      · have hstopped := h.stopped hstop
        simp only [if_neg heq]
        exact hstopped.push

theorem enter (node : Node) (h : Orderly recorder place) :
    Orderly (recorder.enter node place) place := by
  unfold Recorder.enter
  split
  · rename_i location _ _
    have hsources : Orderly
        { recorder with sources := addSource recorder.sources location.sourceName } place :=
      ⟨h.sorted, h.passed, h.ended⟩
    simp only
    split
    · exact hsources
    · exact hsources.map _
  · exact h

theorem leave (node : Node) (h : Orderly recorder place) :
    Orderly (recorder.leave node place) place := by
  unfold Recorder.leave
  split
  · refine ⟨h.sorted, h.passed, ?_⟩
    intro stop hstop
    cases hstop
    exact ⟨Place.le_refl place, h.passed⟩
  · exact h

theorem follow {pieces : List Piece} (h : Orderly recorder place) :
    Orderly (recorder.follow place pieces) (place.after (chars pieces)) := by
  induction pieces generalizing recorder place with
  | nil => exact h
  | cons piece rest ih =>
      cases piece with
      | text written =>
          rw [chars_text, Place.after_append]
          exact ih (h.mono (Place.le_after place written.toList))
      | enter node => exact ih (h.enter node)
      | leave node => exact ih (h.leave node)

theorem finish (h : Orderly recorder place) :
    recorder.finish.Pairwise fun left right => left.generated <= right.generated := by
  unfold Recorder.finish
  split
  · exact List.pairwise_reverse.mpr h.sorted
  · rename_i stop hstop
    split
    · exact List.pairwise_reverse.mpr h.sorted
    · exact List.pairwise_reverse.mpr (h.stopped hstop).sorted

end Orderly

/-! ## Places -/

/-- Every place that has been recorded has a property. -/
def Holds (recorder : Recorder) (P : Place -> Prop) : Prop :=
  (forall mapping, mapping ∈ recorder.mappings -> P mapping.generated) ∧
    forall stop, stop ∈ recorder.pendingEnd -> P stop

namespace Holds

variable {recorder : Recorder} {P : Place -> Prop} {place : Place}

theorem empty (P : Place -> Prop) : Holds .empty P := by
  constructor
  · intro mapping hmem
    cases hmem
  · intro stop hmem
    cases hmem

theorem map (source : SourcePlace) (h : Holds recorder P) (hplace : P place) :
    Holds (recorder.map source place) P := by
  constructor
  · unfold Recorder.map
    intro mapping hmem
    rcases List.mem_cons.mp hmem with rfl | hmem
    · exact hplace
    · split at hmem
      · rename_i stop hstop
        split at hmem
        · exact h.left mapping hmem
        · rcases List.mem_cons.mp hmem with rfl | hmem
          · exact h.right stop hstop
          · exact h.left mapping hmem
      · exact h.left mapping hmem
  · intro stop hstop
    cases hstop

theorem enter (node : Node) (h : Holds recorder P) (hplace : P place) :
    Holds (recorder.enter node place) P := by
  unfold Recorder.enter
  split
  · rename_i location _ _
    have hsources : Holds
        { recorder with sources := addSource recorder.sources location.sourceName } P := h
    simp only
    split
    · exact hsources
    · exact hsources.map _ hplace
  · exact h

theorem leave (node : Node) (h : Holds recorder P) (hplace : P place) :
    Holds (recorder.leave node place) P := by
  unfold Recorder.leave
  split
  · refine ⟨h.left, ?_⟩
    intro stop hstop
    cases hstop
    exact hplace
  · exact h

theorem follow {pieces : List Piece} (h : Holds recorder P)
    (hplace : forall front, front <+: chars pieces -> P (place.after front)) :
    Holds (recorder.follow place pieces) P := by
  induction pieces generalizing recorder place with
  | nil => exact h
  | cons piece rest ih =>
      have hhere : P place := hplace [] List.nil_prefix
      cases piece with
      | text written =>
          refine ih h ?_
          intro front hfront
          rw [← Place.after_append]
          exact hplace _ ((List.prefix_append_right_inj _).mpr hfront)
      | enter node => exact ih (h.enter node hhere) hplace
      | leave node => exact ih (h.leave node hhere) hplace

theorem finish (h : Holds recorder P) {mapping : Mapping} (hmem : mapping ∈ recorder.finish) :
    P mapping.generated := by
  unfold Recorder.finish at hmem
  split at hmem
  · exact h.left mapping (List.mem_reverse.mp hmem)
  · rename_i stop hstop
    split at hmem
    · exact h.left mapping (List.mem_reverse.mp hmem)
    · rcases List.mem_cons.mp (List.mem_reverse.mp hmem) with rfl | hmem
      · exact h.right stop hstop
      · exact h.left mapping hmem

end Holds

/-! ## Mapped nodes -/

/-- The mappings that have a source, in the order of their recording. -/
def mapped (mappings : List Mapping) : List Mapping :=
  mappings.filter fun mapping => !mapping.isRangeEnd

/-- Where a node came from, in a source that is known by its index. -/
def origin? (index : Nat) (node : Node) : Option SourcePlace :=
  node.location.map fun location =>
    ⟨index, location.start.place.line, location.start.place.column⟩

/-- The mapping of a start, when the text before it begins the generated text. -/
def ofStart (start : Node × List Char) : Mapping :=
  ⟨Place.start.after start.2, origin? 0 start.1⟩

theorem mapped_map (recorder : Recorder) (source : SourcePlace) (place : Place) :
    mapped (recorder.map source place).mappings =
      ⟨place, some source⟩ :: mapped recorder.mappings := by
  unfold Recorder.map
  cases recorder.pendingEnd with
  | none => rfl
  | some stop =>
      by_cases heq : stop = place
      · simp only [if_pos heq]
        rfl
      · simp only [if_neg heq]
        rfl

theorem mapped_finish (recorder : Recorder) :
    mapped recorder.finish = (mapped recorder.mappings).reverse := by
  unfold Recorder.finish mapped
  split
  · exact List.filter_reverse
  · split
    · exact List.filter_reverse
    · rw [List.filter_reverse]
      rfl

theorem addSource_of_subset {sources : List String} {name : String}
    (h : sources = [] ∨ sources = [name]) : addSource sources name = [name] := by
  rcases h with rfl | rfl
  · rfl
  · simp [addSource]

/-- A tracked node of the one source, when its origin is not the one of the node before it. -/
theorem enter_new (place : Place) {recorder : Recorder} {node : Node} {location : Location}
    (htracked : node.isTracked = true) (hlocation : node.location = some location)
    (hsources : recorder.sources = [] ∨ recorder.sources = [location.sourceName])
    (hnew : recorder.latest ≠ origin? 0 node) :
    (recorder.enter node place).sources = [location.sourceName] ∧
      (recorder.enter node place).latest = origin? 0 node ∧
      mapped (recorder.enter node place).mappings =
        ⟨place, origin? 0 node⟩ :: mapped recorder.mappings := by
  have htracked' : isTracked node.type = true := htracked
  have hindex : [location.sourceName].idxOf location.sourceName = 0 := List.idxOf_cons_self
  unfold origin? at hnew ⊢
  unfold Recorder.enter
  rw [htracked', hlocation]
  rw [hlocation, Option.map_some] at hnew
  simp only [addSource_of_subset hsources, hindex, if_neg hnew, Option.map_some, mapped_map]
  exact ⟨rfl, rfl, trivial⟩

theorem enter_untracked {recorder : Recorder} {node : Node} {place : Place}
    (h : node.isTracked = false) : recorder.enter node place = recorder := by
  have h' : isTracked node.type = false := h
  unfold Recorder.enter
  rw [h']

theorem leave_keeps (recorder : Recorder) (node : Node) (place : Place) :
    (recorder.leave node place).sources = recorder.sources ∧
      (recorder.leave node place).latest = recorder.latest ∧
      (recorder.leave node place).mappings = recorder.mappings := by
  unfold Recorder.leave
  split
  · exact ⟨rfl, rfl, rfl⟩
  · exact ⟨rfl, rfl, rfl⟩

theorem mapped_follow (recorder : Recorder) {sourceName : String} {before : List Char}
    {pieces : List Piece}
    (hlocated : forall start, start ∈ trackedStarts before pieces ->
      exists location, start.1.location = some location ∧ location.sourceName = sourceName)
    (hsources : recorder.sources = [] ∨ recorder.sources = [sourceName])
    (hdistinct : (recorder.latest ::
      (trackedStarts before pieces).map fun start => origin? 0 start.1).Nodup) :
    mapped (recorder.follow (Place.start.after before) pieces).mappings =
        ((trackedStarts before pieces).map ofStart).reverse ++ mapped recorder.mappings ∧
      (recorder.follow (Place.start.after before) pieces).sources =
        if trackedStarts before pieces = [] then recorder.sources else [sourceName] := by
  induction pieces generalizing recorder before with
  | nil => exact ⟨rfl, rfl⟩
  | cons piece rest ih =>
      cases piece with
      | text written =>
          rw [follow, ← Place.after_append]
          exact ih recorder hlocated hsources hdistinct
      | leave node =>
          rcases leave_keeps recorder node (Place.start.after before) with
            ⟨hsame, hlatest, hmappings⟩
          have hrest := ih (recorder.leave node (Place.start.after before)) hlocated
            (hsame ▸ hsources) (hlatest ▸ hdistinct)
          rw [hsame, hmappings] at hrest
          exact hrest
      | enter node =>
          cases htracked : node.isTracked with
          | false =>
              rw [trackedStarts_enter_untracked htracked] at *
              rw [follow, enter_untracked htracked]
              exact ih recorder hlocated hsources hdistinct
          | true =>
              rw [trackedStarts_enter_tracked htracked] at *
              rcases hlocated (node, before) List.mem_cons_self with
                ⟨location, hlocation, rfl⟩
              rw [List.map_cons, List.nodup_cons] at hdistinct
              have hnew : recorder.latest ≠ origin? 0 node := by
                intro heq
                exact hdistinct.left (heq ▸ List.mem_cons_self)
              rcases enter_new (Place.start.after before) htracked hlocation hsources hnew with
                ⟨hsource, hlatest, hmapped⟩
              have hrest := ih (recorder.enter node (Place.start.after before))
                (fun start hstart => hlocated start (List.mem_cons_of_mem _ hstart))
                (Or.inr hsource) (hlatest ▸ hdistinct.right)
              rw [hsource, hmapped] at hrest
              rw [follow, hrest.left, hrest.right, ite_self, if_neg (List.cons_ne_nil _ _)]
              refine ⟨?_, rfl⟩
              rw [List.map_cons, List.reverse_cons, List.append_assoc]
              rfl

end Recorder

namespace Writer

/-- A writer puts the texts of pieces behind its text and lets its recorder follow them. -/
theorem foldl_piece (pieces : List Piece) (writer : Writer) :
    pieces.foldl piece writer =
      ⟨⟨writer.output.text ++ String.ofList (Piece.chars pieces),
          writer.output.place.after (Piece.chars pieces),
          writer.output.length + (Piece.chars pieces).length⟩,
        writer.recorder.map fun recorder => recorder.follow writer.output.place pieces⟩ := by
  induction pieces generalizing writer with
  | nil =>
      rcases writer with ⟨⟨text, place, length⟩, recorder⟩
      cases recorder <;> simp [Recorder.follow]
  | cons first rest ih =>
      rw [List.foldl_cons, ih]
      cases first with
      | text written =>
          simp [piece, Output.write, Recorder.follow, String.ofList_append,
            String.append_assoc, Nat.add_assoc]
          exact String.length_toList.symm
      | enter node =>
          rcases writer with ⟨output, recorder⟩
          cases recorder <;> rfl
      | leave node =>
          rcases writer with ⟨output, recorder⟩
          cases recorder <;> rfl

end Writer
end Stylesheet
