import Mathlib.Data.List.TakeWhile
import Stylesheet.Proofs.Mapping.Unmapped

/-!
# Recorded mappings in closed form

A recorder holds a range end back and forgets it again, and skips the starts of nodes that begin
where the latest mapping began.  Main statement: what it has recorded at the end of any row of
calls is read off the row cut into stretches, each of which begins with a node of another origin.
-/

namespace Stylesheet
namespace Recorder

open Mapping

/-! ## Calls -/

/-- What a recorder is told: a node starts or ends at a place. -/
inductive Call where
  | enter (node : Node) (place : Place)
  | leave (node : Node) (place : Place)

/-- A recorder follows what it is told. -/
def hear (recorder : Recorder) : Call -> Recorder
  | .enter node place => recorder.enter node place
  | .leave node place => recorder.leave node place

namespace Call

/-- The origin of the node that starts, if it can be mapped. -/
def origin : Call -> Option (String × Place)
  | enter node _ => node.origin
  | leave _ _ => none

/-- Where an at-rule, a selector or a declaration ends. -/
def stop : Call -> Option Place
  | enter _ _ => none
  | leave node place => if node.isTracked then some place else none

/-- No node of another origin starts. -/
def staysIn (origin : String × Place) (call : Call) : Bool :=
  call.origin == none || call.origin == some origin

end Call

/-! ## Stretches -/

/--
A start that is mapped, with the places where tracked nodes end before the next start that is
mapped.
-/
structure Stretch where
  place : Place
  origin : String × Place
  stops : List Place

/--
The stretches of a row of calls.  The first node with an origin begins one, and each next begins
with the first node whose origin is another one.
-/
def stretches : List Call -> List Stretch
  | [] => []
  | .leave _ _ :: rest => stretches rest
  | .enter node place :: rest =>
      match node.origin with
      | none => stretches rest
      | some origin =>
          ⟨place, origin, (rest.takeWhile (Call.staysIn origin)).filterMap Call.stop⟩ ::
            stretches (rest.dropWhile (Call.staysIn origin))
termination_by calls => calls.length
decreasing_by
  · exact Nat.lt_succ_self _
  · exact Nat.lt_succ_self _
  · exact Nat.lt_succ_of_le (List.dropWhile_suffix _).length_le

/-- The sources of the nodes that start, in the order in which they are first met. -/
def sourceNames (calls : List Call) : List String :=
  ((calls.filterMap Call.origin).map Prod.fst).eraseDups

/-- A range end at a place, unless a mapping stands there. -/
def rangeEnd (stop : Option Place) (place : Place) : List Mapping :=
  match stop with
  | none => []
  | some stop => if stop = place then [] else [⟨stop, none⟩]

/--
The mappings of stretches: the start of each, and behind it its last end, unless the next
mapping stands there, or behind the last stretch its own start.
-/
def mappingsOf (sources : List String) : List Stretch -> List Mapping
  | [] => []
  | [stretch] =>
      ⟨stretch.place, some (sourceOf sources stretch.origin)⟩ ::
        rangeEnd stretch.stops.getLast? stretch.place
  | stretch :: next :: rest =>
      ⟨stretch.place, some (sourceOf sources stretch.origin)⟩ ::
        rangeEnd stretch.stops.getLast? next.place ++ mappingsOf sources (next :: rest)

theorem reverse_rangeEnd (stop : Option Place) (place : Place) :
    (rangeEnd stop place).reverse = rangeEnd stop place := by
  unfold rangeEnd
  split
  · rfl
  · split <;> rfl

/-! ## Sources -/

theorem foldl_addSource (names : List String) :
    names.foldl addSource [] = names.eraseDups := by
  induction names using List.reverseRecOn with
  | nil => rfl
  | append_singleton names name ih =>
      rw [List.foldl_append, ih, List.foldl_cons, List.foldl_nil, addSource]
      by_cases hmem : name ∈ names
      · rw [if_pos (List.contains_iff_mem.mpr (List.mem_eraseDups.mpr hmem)),
          eraseDups_concat_of_mem hmem]
      · have hnew : ¬ names.eraseDups.contains name = true := by
          rw [List.contains_iff_mem, List.mem_eraseDups]
          exact hmem
        rw [if_neg hnew, eraseDups_concat_of_not_mem hmem]

theorem sources_enter (recorder : Recorder) (node : Node) (place : Place) :
    (recorder.enter node place).sources =
      (node.origin.map Prod.fst).toList.foldl addSource recorder.sources := by
  cases horigin : node.origin with
  | none =>
      rw [enter_of_origin_none horigin]
      rfl
  | some origin =>
      unfold Node.origin at horigin
      split at horigin
      · rename_i htracked
        have htracked' : isTracked node.type = true := htracked
        rcases Option.map_eq_some_iff.mp horigin with ⟨location, hlocation, rfl⟩
        unfold Recorder.enter
        rw [htracked', hlocation]
        dsimp only
        split <;> rfl
      · cases horigin

theorem sources_hear (recorder : Recorder) (call : Call) :
    (recorder.hear call).sources =
      (call.origin.map Prod.fst).toList.foldl addSource recorder.sources := by
  cases call with
  | enter node place => exact sources_enter recorder node place
  | leave node place => exact (leave_keeps recorder node place).left

theorem sources_foldl_hear (calls : List Call) (recorder : Recorder) :
    (calls.foldl hear recorder).sources =
      ((calls.filterMap Call.origin).map Prod.fst).foldl addSource recorder.sources := by
  induction calls generalizing recorder with
  | nil => rfl
  | cons call rest ih =>
      rw [List.foldl_cons, ih, sources_hear, List.filterMap_cons]
      cases call.origin <;> rfl

/-- The index of a source does not change when more sources are met. -/
theorem sourceOf_foldl_hear {origin : String × Place} {recorder : Recorder}
    (h : origin.1 ∈ recorder.sources) (calls : List Call) :
    sourceOf (calls.foldl hear recorder).sources origin = sourceOf recorder.sources origin := by
  rw [sources_foldl_hear]
  generalize (calls.filterMap Call.origin).map Prod.fst = names
  generalize recorder.sources = sources at h
  induction names generalizing sources with
  | nil => rfl
  | cons name rest ih =>
      rw [List.foldl_cons, ih (addSource sources name) (mem_addSource.mpr (Or.inl h)),
        sourceOf_addSource h]

/-! ## Steps -/

theorem mappings_map (recorder : Recorder) (source : SourcePlace) (place : Place) :
    (recorder.map source place).mappings =
      ⟨place, some source⟩ :: (rangeEnd recorder.pendingEnd place ++ recorder.mappings) := by
  unfold map rangeEnd
  cases recorder.pendingEnd with
  | none => rfl
  | some stop =>
      by_cases heq : stop = place
      · simp only [if_pos heq]
        rfl
      · simp only [if_neg heq]
        rfl

theorem finish_eq {recorder : Recorder} {mapping : Mapping} {earlier : List Mapping}
    (h : recorder.mappings = mapping :: earlier) :
    recorder.finish =
      earlier.reverse ++ mapping :: rangeEnd recorder.pendingEnd mapping.generated := by
  unfold finish rangeEnd
  rw [h, List.head?_cons, Option.map_some]
  cases recorder.pendingEnd with
  | none => exact List.reverse_cons
  | some stop =>
      by_cases heq : stop = mapping.generated
      · subst heq
        simp
      · have hne : ¬ mapping.generated = stop := fun hsame => heq hsame.symm
        simp [heq, hne]

/-- A recorder has come into a stretch, with mappings before it. -/
structure IsWithin (recorder : Recorder) (stretch : Stretch) (earlier : List Mapping) : Prop where
  remembers : Remembers (some stretch.origin) recorder
  pending : recorder.pendingEnd = stretch.stops.getLast?
  mappings : recorder.mappings =
    ⟨stretch.place, some (sourceOf recorder.sources stretch.origin)⟩ :: earlier

namespace IsWithin

variable {recorder : Recorder} {stretch : Stretch} {earlier : List Mapping}

/-- A node of another origin begins a stretch. -/
theorem of_enter {last : Option (String × Place)} {node : Node} {origin : String × Place}
    (hremembers : Remembers last recorder) (horigin : node.origin = some origin)
    (hother : last ≠ some origin) (place : Place) :
    IsWithin (recorder.enter node place) ⟨place, origin, []⟩
      (rangeEnd recorder.pendingEnd place ++ recorder.mappings) := by
  have hbehind := hremembers.enter node place
  rw [horigin, Option.some_or] at hbehind
  have henter := hremembers.enter_eq horigin place
  rw [if_neg hother] at henter
  refine ⟨hbehind, ?_, ?_⟩
  · rw [henter]
    rfl
  · rw [henter, mappings_map]
    rfl

/-- Within a stretch a recorder only learns where nodes end. -/
theorem hear {call : Call} (h : IsWithin recorder stretch earlier)
    (hcall : call.staysIn stretch.origin = true) :
    IsWithin (recorder.hear call)
      { stretch with stops := stretch.stops ++ call.stop.toList } earlier := by
  cases call with
  | enter node place =>
      have hsame : recorder.enter node place = recorder := by
        cases horigin : node.origin with
        | none => exact enter_of_origin_none horigin recorder place
        | some other =>
            have heq : some other = some stretch.origin := by
              simpa [Call.staysIn, Call.origin, horigin] using hcall
            rw [h.remembers.enter_eq horigin, if_pos heq.symm]
      rw [Recorder.hear, hsame, Call.stop, Option.toList_none, List.append_nil]
      exact h
  | leave node place =>
      rw [Recorder.hear, Call.stop]
      cases htracked : node.isTracked with
      | false =>
          rw [leave_untracked htracked, if_neg Bool.false_ne_true, Option.toList_none,
            List.append_nil]
          exact h
      | true =>
          have hstarted : recorder.mappings ≠ [] := by
            rw [h.mappings]
            exact List.cons_ne_nil _ _
          have hremembers := h.remembers.leave node place
          rw [leave_tracked htracked hstarted] at hremembers ⊢
          refine ⟨hremembers, ?_, h.mappings⟩
          rw [if_pos rfl, Option.toList_some, List.getLast?_concat]

theorem foldl_hear {calls : List Call} (h : IsWithin recorder stretch earlier)
    (hcalls : forall call, call ∈ calls -> call.staysIn stretch.origin = true) :
    IsWithin (calls.foldl Recorder.hear recorder)
      { stretch with stops := stretch.stops ++ calls.filterMap Call.stop } earlier := by
  induction calls generalizing recorder stretch with
  | nil =>
      rw [List.filterMap_nil, List.append_nil]
      exact h
  | cons call rest ih =>
      have hrest := ih (h.hear (hcalls call List.mem_cons_self))
        fun other hother => hcalls other (List.mem_cons_of_mem call hother)
      have hstops : (call :: rest).filterMap Call.stop =
          call.stop.toList ++ rest.filterMap Call.stop := by
        rw [List.filterMap_cons]
        cases call.stop <;> rfl
      rw [hstops, ← List.append_assoc]
      exact hrest

theorem finish (h : IsWithin recorder stretch earlier) :
    recorder.finish =
      earlier.reverse ++ mappingsOf recorder.sources [stretch] := by
  rw [finish_eq h.mappings, h.pending]
  rfl

/-- The calls that stay in a stretch are followed up to the one that begins another. -/
theorem foldl_hear_takeWhile (h : IsWithin recorder stretch earlier) (calls : List Call) :
    IsWithin ((calls.takeWhile (Call.staysIn stretch.origin)).foldl Recorder.hear recorder)
        { stretch with
          stops := stretch.stops ++
            (calls.takeWhile (Call.staysIn stretch.origin)).filterMap Call.stop } earlier ∧
      forall call, call ∈ (calls.dropWhile (Call.staysIn stretch.origin)).head? ->
        call.staysIn stretch.origin = false := by
  refine ⟨h.foldl_hear fun _ => List.mem_takeWhile_imp, ?_⟩
  intro call hcall
  have hhead := List.head?_dropWhile_not (Call.staysIn stretch.origin) calls
  rw [hcall] at hhead
  exact hhead

/-- What is recorded from a stretch on, when the next call begins another one. -/
theorem finish_behind {calls : List Call} (h : IsWithin recorder stretch earlier)
    (hends : forall call, call ∈ calls.head? -> call.staysIn stretch.origin = false) :
    (calls.foldl Recorder.hear recorder).finish =
      earlier.reverse ++
        mappingsOf (calls.foldl Recorder.hear recorder).sources (stretch :: stretches calls) := by
  fun_induction stretches calls generalizing recorder stretch earlier with
  | case1 => exact h.finish
  | case2 node place rest =>
      cases hends (.leave node place) rfl
  | case3 node place rest horigin =>
      have hnone := hends (.enter node place) rfl
      rw [Call.staysIn, Call.origin, horigin] at hnone
      cases hnone
  | case4 node place rest origin horigin ih =>
      have hother : some stretch.origin ≠ some origin := by
        intro heq
        have hsome := hends (.enter node place) rfl
        simp [Call.staysIn, Call.origin, horigin, heq] at hsome
      have hsource : sourceOf recorder.sources stretch.origin =
          sourceOf ((Call.enter node place :: rest).foldl Recorder.hear recorder).sources
            stretch.origin :=
        (sourceOf_foldl_hear (h.remembers.known stretch.origin rfl) _).symm
      rcases (of_enter h.remembers horigin hother place).foldl_hear_takeWhile rest with
        ⟨hnext, hbehind⟩
      have hfinish := ih hnext hbehind
      rw [← List.foldl_append, List.takeWhile_append_dropWhile] at hfinish
      change ((Call.enter node place :: rest).foldl Recorder.hear recorder).finish = _ at hfinish
      rw [hfinish, List.reverse_append, reverse_rangeEnd, h.mappings, h.pending,
        List.reverse_cons, hsource, mappingsOf, List.append_assoc, List.append_assoc]
      rfl

end IsWithin

/-! ## Rows of calls -/

/-- Nothing is recorded before a node with an origin starts. -/
theorem finish_foldl_hear_empty (calls : List Call) :
    (calls.foldl hear .empty).finish =
      mappingsOf (calls.foldl hear .empty).sources (stretches calls) := by
  fun_induction stretches calls with
  | case1 => rfl
  | case2 node place rest ih =>
      have hsame : Recorder.empty.leave node place = .empty := by
        unfold leave
        rw [Bool.and_comm]
        rfl
      rw [List.foldl_cons, hear, hsame]
      exact ih
  | case3 node place rest horigin ih =>
      rw [List.foldl_cons, hear, enter_of_origin_none horigin]
      exact ih
  | case4 node place rest origin horigin ih =>
      rcases (IsWithin.of_enter Remembers.empty horigin (Option.some_ne_none origin).symm
        place).foldl_hear_takeWhile rest with ⟨hfirst, hbehind⟩
      have hfinish := hfirst.finish_behind hbehind
      rw [← List.foldl_append, List.takeWhile_append_dropWhile] at hfinish
      exact hfinish

/-- What a recorder has recorded behind a row of calls is read off the stretches of the row. -/
theorem finish_foldl_hear (calls : List Call) :
    (calls.foldl hear .empty).sources = sourceNames calls ∧
      (calls.foldl hear .empty).finish = mappingsOf (sourceNames calls) (stretches calls) := by
  have hsources : (calls.foldl hear .empty).sources = sourceNames calls := by
    rw [sources_foldl_hear, sourceNames, ← foldl_addSource]
    rfl
  refine ⟨hsources, ?_⟩
  rw [← hsources]
  exact finish_foldl_hear_empty calls

end Recorder
end Stylesheet
