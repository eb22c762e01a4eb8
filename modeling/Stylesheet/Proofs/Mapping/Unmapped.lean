import Stylesheet.Proofs.Mapping.WellFormed

/-!
# Text that belongs to no source

A node without a location is not mapped, but where it ends a pending range end is put off.
Main statement: text of such a node belongs to no source exactly when nothing is mapped before
it, or another mapping starts behind it before an at-rule, a selector or a declaration ends.
-/

namespace Stylesheet

open Piece hiding enter leave

namespace Mapping

instance (left right : Place) : Decidable (left <= right) :=
  inferInstanceAs (Decidable (left.line < right.line ∨
    left.line = right.line ∧ left.column <= right.column))

/-- The last mapping that does not start behind a place. -/
def lastUpTo (place : Place) (mappings : List Mapping) : Option Mapping :=
  (mappings.filter fun mapping => mapping.generated <= place).getLast?

/-- A place belongs to no source: a range ends before it, or no mapping stands before it. -/
def Unmapped (mappings : List Mapping) (place : Place) : Prop :=
  forall mapping, mapping ∈ lastUpTo place mappings -> mapping.isRangeEnd = true

theorem lastUpTo_reverse (place : Place) (mappings : List Mapping) :
    lastUpTo place mappings.reverse =
      mappings.find? fun mapping => mapping.generated <= place := by
  rw [lastUpTo, List.filter_reverse, List.getLast?_reverse, List.head?_filter]

end Mapping

/-! ## Nodes around a character -/

namespace Node

/-- What a mapping of a node tells of its location. -/
def origin (node : Node) : Option (String × Place) :=
  if node.isTracked then
    node.location.map fun location => (location.sourceName, location.start.place)
  else
    none

theorem isTracked_of_origin {node : Node} (h : node.origin ≠ none) :
    node.isTracked = true ∧ node.location.isSome = true := by
  unfold origin at h
  split at h
  · rename_i htracked
    rw [ne_eq, Option.map_eq_none_iff] at h
    exact ⟨htracked, Option.isSome_iff_ne_none.mpr h⟩
  · exact absurd rfl h

/--
The character behind the first ones of the text of a tree stands in the text of an at-rule, a
selector or a declaration with a location, or in that of one without.
-/
def HasTracked (tree : Node) (located : Bool) (offset : Nat) : Prop :=
  exists start, start ∈ trackedStarts [] tree.pieces ∧ start.1.location.isSome = located ∧
    start.2.length <= offset ∧ offset < start.2.length + start.1.render.length

instance (tree : Node) (located : Bool) (offset : Nat) :
    Decidable (tree.HasTracked located offset) :=
  inferInstanceAs (Decidable (exists start, start ∈ trackedStarts [] tree.pieces ∧ _))

end Node

namespace Piece

/-- The origin of the node that starts with the piece. -/
def origin : Piece -> Option (String × Place)
  | .enter node => node.origin
  | _ => none

/-- The origins of the nodes that start among pieces. -/
def origins (pieces : List Piece) : List (String × Place) :=
  pieces.filterMap origin

/-- No at-rule, selector or declaration ends with the piece. -/
def GoesOn : Piece -> Prop
  | .leave node => node.isTracked = false
  | _ => True

/-- A node with another origin starts before an at-rule, a selector or a declaration ends. -/
def StartsAnother (last : Option (String × Place)) (pieces : List Piece) : Prop :=
  exists front node back, pieces = front ++ .enter node :: back ∧
    (forall piece, piece ∈ front -> piece.GoesOn) ∧ node.origin ≠ none ∧ node.origin ≠ last

theorem startsAnother_cons_iff {last : Option (String × Place)} {piece : Piece}
    {rest : List Piece} :
    StartsAnother last (piece :: rest) <->
      (exists node, piece = .enter node ∧ node.origin ≠ none ∧ node.origin ≠ last) ∨
        piece.GoesOn ∧ StartsAnother last rest := by
  constructor
  · rintro ⟨front, node, back, heq, hfront, hnode⟩
    cases front with
    | nil =>
        rcases List.cons.inj heq with ⟨rfl, _⟩
        exact Or.inl ⟨node, rfl, hnode⟩
    | cons first front =>
        rcases List.cons.inj heq with ⟨rfl, hrest⟩
        exact Or.inr ⟨hfront _ List.mem_cons_self, front, node, back, hrest,
          fun other hother => hfront other (List.mem_cons_of_mem _ hother), hnode⟩
  · rintro (⟨node, rfl, hnode⟩ | ⟨hpiece, front, node, back, rfl, hfront, hnode⟩)
    · exact ⟨[], node, rest, rfl, fun _ hnil => absurd hnil List.not_mem_nil, hnode⟩
    · exact ⟨piece :: front, node, back, rfl, List.forall_mem_cons.mpr ⟨hpiece, hfront⟩, hnode⟩

theorem startsAnother_cons_of_goesOn {last : Option (String × Place)} (piece : Piece)
    {rest : List Piece} (hpiece : piece.GoesOn)
    (hsame : piece.origin ≠ none -> piece.origin = last) :
    StartsAnother last (piece :: rest) <-> StartsAnother last rest := by
  rw [startsAnother_cons_iff]
  constructor
  · rintro (⟨node, rfl, hsome, hother⟩ | ⟨_, hrest⟩)
    · exact absurd (hsame hsome) hother
    · exact hrest
  · intro hrest
    exact Or.inr ⟨hpiece, hrest⟩

/-- Behind the start of a node stand all of its own pieces. -/
def Nested (pieces : List Piece) : Prop :=
  forall front node rest, pieces = front ++ .enter node :: rest ->
    exists after, rest = Node.constructPieces node.construct ++ .leave node :: after

theorem Nested.append {left right : List Piece} (h : Nested left) (h' : Nested right) :
    Nested (left ++ right) := by
  intro front node rest heq
  rcases List.append_eq_append_iff.mp heq with ⟨more, _, hright⟩ | ⟨more, hleft, hmore⟩
  · exact h' more node rest hright
  · cases more with
    | nil => exact h' [] node rest hmore.symm
    | cons first more =>
        rcases List.cons.inj hmore with ⟨rfl, rfl⟩
        rcases h front node more hleft with ⟨after, rfl⟩
        exact ⟨after ++ right, List.append_assoc _ _ _⟩

theorem nested_of_weave {nodes : List Node} {pieces : List Piece}
    (hnodes : forall child, child ∈ nodes -> Nested child.pieces) (h : Weave nodes pieces) :
    Nested pieces := by
  induction h with
  | nil =>
      intro front node rest heq
      exact absurd heq.symm (List.append_ne_nil_of_right_ne_nil _ (List.cons_ne_nil _ _))
  | text written h ih =>
      intro front node rest heq
      cases front with
      | nil => cases heq
      | cons first front => exact ih hnodes front node rest (List.cons.inj heq).right
  | node node h ih =>
      exact (hnodes node List.mem_cons_self).append
        (ih fun child hchild => hnodes child (List.mem_cons_of_mem node hchild))

theorem nested_pieces (node : Node) : Nested node.pieces := by
  induction node using Node.induction with
  | step node ih =>
      have hinner : Nested (Node.constructPieces node.construct) :=
        nested_of_weave (fun child hchild => ih child
          (Construct.writtenChildren_subset node.construct hchild))
          (Node.weave_constructPieces node.construct)
      have hend : Nested [leave node] := by
        intro front other rest heq
        rcases List.append_eq_singleton_iff.mp heq.symm with ⟨rfl, hother⟩ | ⟨_, hother⟩
        · cases hother
        · cases hother
      rw [Node.pieces_eq]
      intro front other rest heq
      cases front with
      | nil =>
          rcases List.cons.inj heq with ⟨hnode, rfl⟩
          cases hnode
          exact ⟨[], rfl⟩
      | cons first front =>
          exact (hinner.append hend) front other rest (List.cons.inj heq).right

theorem mem_starts_append (before : List Char) (front : List Piece) (node : Node)
    (rest : List Piece) :
    (node, before ++ chars front) ∈ starts before (front ++ .enter node :: rest) := by
  rw [starts_append, starts]
  exact List.mem_append_right _ List.mem_cons_self

theorem exists_of_mem_starts {pieces : List Piece} {before : List Char}
    {start : Node × List Char} (h : start ∈ starts before pieces) :
    exists front rest, pieces = front ++ .enter start.1 :: rest ∧
      start.2 = before ++ chars front := by
  induction pieces generalizing before with
  | nil => cases h
  | cons piece pieces ih =>
      cases piece with
      | enter node =>
          rcases List.mem_cons.mp h with rfl | h
          · exact ⟨[], pieces, rfl, (List.append_nil _).symm⟩
          · rcases ih h with ⟨front, rest, rfl, heq⟩
            exact ⟨.enter node :: front, rest, rfl, heq⟩
      | text written =>
          rcases ih h with ⟨front, rest, rfl, heq⟩
          refine ⟨.text written :: front, rest, rfl, ?_⟩
          rw [heq, chars_text, List.append_assoc]
      | leave node =>
          rcases ih h with ⟨front, rest, rfl, heq⟩
          exact ⟨.leave node :: front, rest, rfl, heq⟩

/-- A character of the texts among pieces is written by one of them. -/
theorem exists_text {pieces : List Piece} {offset : Nat} (h : offset < (chars pieces).length) :
    exists front written back, pieces = front ++ .text written :: back ∧
      (chars front).length <= offset ∧ offset < (chars front).length + written.length := by
  induction pieces generalizing offset with
  | nil => exact absurd h (Nat.not_lt_zero _)
  | cons piece pieces ih =>
      cases piece with
      | enter node =>
          rcases ih h with ⟨front, written, back, rfl, hoffset⟩
          exact ⟨.enter node :: front, written, back, rfl, hoffset⟩
      | leave node =>
          rcases ih h with ⟨front, written, back, rfl, hoffset⟩
          exact ⟨.leave node :: front, written, back, rfl, hoffset⟩
      | text text =>
          rw [chars_text, List.length_append, String.length_toList] at h
          by_cases hhere : offset < text.length
          · refine ⟨[], text, pieces, rfl, Nat.zero_le _, ?_⟩
            rw [chars_nil, List.length_nil, Nat.zero_add]
            exact hhere
          · have hback : offset - text.length < (chars pieces).length := by omega
            rcases ih hback with ⟨front, written, back, rfl, hle, hlt⟩
            refine ⟨.text text :: front, written, back, rfl, ?_, ?_⟩
            · rw [chars_text, List.length_append, String.length_toList]
              omega
            · rw [chars_text, List.length_append, String.length_toList]
              omega

section Around

variable {tree : Node} {front back : List Piece} {written : String} {offset : Nat}

/-- Around a character stands a node that started before it and has not ended before it. -/
theorem hasTracked_of_open {before behind : List Piece} {node : Node}
    (hpieces : tree.pieces = front ++ .text written :: back)
    (hfront : front = before ++ .enter node :: behind) (hnode : node.isTracked = true)
    (hbehind : forall piece, piece ∈ behind -> piece.GoesOn)
    (hle : (chars front).length <= offset)
    (hlt : offset < (chars front).length + written.length) :
    tree.HasTracked node.location.isSome offset := by
  have hsplit : tree.pieces = before ++ .enter node :: (behind ++ .text written :: back) := by
    rw [hpieces, hfront, List.append_assoc]
    rfl
  rcases nested_pieces tree before node _ hsplit with ⟨after, hafter⟩
  refine ⟨(node, chars before), ?_, rfl, ?_, ?_⟩
  · refine List.mem_filter.mpr ⟨?_, hnode⟩
    rw [hsplit]
    exact mem_starts_append [] before node _
  · rw [hfront, chars_append, List.length_append] at hle
    exact Nat.le_trans (Nat.le_add_right _ _) hle
  · have hinner : exists more,
        Node.constructPieces node.construct = behind ++ .text written :: more := by
      rcases List.append_eq_append_iff.mp hafter with ⟨more, hinner, hmore⟩ | ⟨more, hover, hmore⟩
      · cases more with
        | nil => cases hmore
        | cons first more =>
            rcases List.cons.inj hmore with ⟨rfl, _⟩
            exact ⟨more, hinner⟩
      · cases more with
        | nil => cases hmore
        | cons first more =>
            rcases List.cons.inj hmore with ⟨rfl, _⟩
            have hended : (Piece.leave node).GoesOn :=
              hbehind _ (hover ▸ List.mem_append_right _ List.mem_cons_self)
            exact absurd hnode (ne_true_of_eq_false hended)
    rcases hinner with ⟨more, hinner⟩
    have hlength := congrArg (fun pieces => (chars pieces).length) hinner
    simp only [Node.chars_constructPieces_eq, chars_append, chars_text, List.length_append,
      String.length_toList] at hlength
    rw [hfront, chars_append, List.length_append, chars_enter] at hlt
    show offset < (chars before).length + node.render.length
    omega

/-- A node around a character ends behind it. -/
theorem exists_leave_of_hasTracked {located : Bool}
    (hpieces : tree.pieces = front ++ .text written :: back)
    (h : tree.HasTracked located offset) (hle : (chars front).length <= offset) :
    exists node, .leave node ∈ back ∧ node.isTracked = true := by
  rcases h with ⟨⟨node, text⟩, hmem, _, _, hlt⟩
  rcases List.mem_filter.mp hmem with ⟨hstart, hnode⟩
  rcases exists_of_mem_starts hstart with ⟨before, rest, hsplit, rfl⟩
  rcases nested_pieces tree before node rest hsplit with ⟨after, rfl⟩
  refine ⟨node, ?_, hnode⟩
  have heq : front ++ .text written :: back =
      (before ++ .enter node :: Node.constructPieces node.construct) ++ .leave node :: after := by
    rw [← hpieces, hsplit, List.append_assoc]
    rfl
  rcases List.append_eq_append_iff.mp heq with ⟨more, hmore, hback⟩ | ⟨more, hfront, _⟩
  · cases more with
    | nil => cases hback
    | cons first more =>
        rw [(List.cons.inj hback).right]
        exact List.mem_append_right _ List.mem_cons_self
  · rw [hfront] at hle
    simp only [chars_append, chars_enter, Node.chars_constructPieces_eq, List.length_append,
      String.length_toList] at hle
    simp only [List.nil_append] at hlt
    omega

end Around

end Piece

namespace Recorder

open Mapping

/-! ## Origins -/

/-- The origin as a place in a source that is known by its index. -/
def sourceOf (sources : List String) (origin : String × Place) : SourcePlace :=
  ⟨sources.idxOf origin.1, origin.2.line, origin.2.column⟩

theorem sourceOf_addSource {sources : List String} {origin : String × Place}
    (h : origin.1 ∈ sources) (name : String) :
    sourceOf (addSource sources name) origin = sourceOf sources origin := by
  unfold sourceOf addSource
  split
  · rfl
  · rw [List.idxOf_append_of_mem h]

theorem sourceOf_inj {sources : List String} {left right : String × Place}
    (h : left.1 ∈ sources) (heq : sourceOf sources left = sourceOf sources right) :
    left = right := by
  rcases left with ⟨name, ⟨line, column⟩⟩
  rcases right with ⟨name', ⟨line', column'⟩⟩
  injection heq with hindex hline hcolumn
  cases hline
  cases hcolumn
  rw [show name = name' from (List.idxOf_inj h).mp hindex]

theorem mem_addSource {sources : List String} {name other : String} :
    other ∈ addSource sources name <-> other ∈ sources ∨ other = name := by
  unfold addSource
  split
  · rename_i hknown
    constructor
    · exact Or.inl
    · rintro (hmem | rfl)
      · exact hmem
      · exact List.contains_iff_mem.mp hknown
  · rw [List.mem_append, List.mem_singleton]

/-- The latest mapping belongs to a node of the last origin. -/
structure Remembers (last : Option (String × Place)) (recorder : Recorder) : Prop where
  latest : recorder.latest = last.map (sourceOf recorder.sources)
  known : forall origin, origin ∈ last -> origin.1 ∈ recorder.sources

theorem enter_of_origin_none {node : Node} (h : node.origin = none) (recorder : Recorder)
    (place : Place) : recorder.enter node place = recorder := by
  cases htracked : node.isTracked with
  | false => exact enter_untracked htracked
  | true =>
      unfold Node.origin at h
      rw [htracked, if_pos rfl, Option.map_eq_none_iff] at h
      unfold enter
      rw [h]
      split
      · contradiction
      · rfl

namespace Remembers

variable {last : Option (String × Place)} {recorder : Recorder}

theorem empty : Remembers none .empty where
  latest := rfl
  known := by
    intro origin hmem
    cases hmem

theorem enter_eq (h : Remembers last recorder) {node : Node} {origin : String × Place}
    (horigin : node.origin = some origin) (place : Place) :
    recorder.enter node place =
      if last = some origin then recorder
      else Recorder.map { recorder with sources := addSource recorder.sources origin.1 }
        (sourceOf (addSource recorder.sources origin.1) origin) place := by
  have hlatest : recorder.latest = last.map (sourceOf (addSource recorder.sources origin.1)) := by
    rw [h.latest]
    cases last with
    | none => rfl
    | some other => exact congrArg some (sourceOf_addSource (h.known other rfl) _).symm
  unfold Node.origin at horigin
  split at horigin
  · rename_i htracked
    rcases Option.map_eq_some_iff.mp horigin with ⟨location, hlocation, rfl⟩
    have htracked' : isTracked node.type = true := htracked
    unfold Recorder.enter
    rw [htracked', hlocation]
    by_cases hsame : last = some (location.sourceName, location.start.place)
    · have hknown : recorder.sources.contains location.sourceName = true :=
        List.contains_iff_mem.mpr (h.known _ hsame)
      have hsources : addSource recorder.sources location.sourceName = recorder.sources :=
        if_pos hknown
      rw [if_pos hsame]
      rw [hsame, Option.map_some] at hlatest
      simp only [hsources] at hlatest ⊢
      exact if_pos hlatest
    · rw [if_neg hsame]
      refine if_neg ?_
      intro heq
      rw [hlatest] at heq
      rcases Option.map_eq_some_iff.mp heq with ⟨other, hother, hinj⟩
      have hmem : other.1 ∈ addSource recorder.sources location.sourceName :=
        mem_addSource.mpr (Or.inl (h.known other hother))
      have hsource : other = (location.sourceName, location.start.place) :=
        sourceOf_inj hmem hinj
      rw [hsource] at hother
      exact hsame hother
  · cases horigin

theorem enter (h : Remembers last recorder) (node : Node) (place : Place) :
    Remembers (node.origin.or last) (recorder.enter node place) := by
  cases horigin : node.origin with
  | none =>
      rw [enter_of_origin_none horigin]
      exact h
  | some origin =>
      rw [h.enter_eq horigin]
      split
      · rename_i hsame
        rw [Option.some_or, ← hsame]
        exact h
      · refine ⟨rfl, ?_⟩
        rintro _ ⟨⟩
        exact mem_addSource.mpr (Or.inr rfl)

theorem leave (h : Remembers last recorder) (node : Node) (place : Place) :
    Remembers last (recorder.leave node place) := by
  rcases leave_keeps recorder node place with ⟨hsources, hlatest, _⟩
  refine ⟨?_, ?_⟩
  · rw [hsources, hlatest]
    exact h.latest
  · rw [hsources]
    exact h.known

theorem follow {place : Place} {pieces : List Piece} (h : Remembers last recorder) :
    Remembers ((origins pieces).getLast?.or last) (recorder.follow place pieces) := by
  induction pieces generalizing recorder place last with
  | nil => exact h
  | cons piece rest ih =>
      cases piece with
      | text written => exact ih h
      | leave node => exact ih (h.leave node place)
      | enter node =>
          have hrest := @ih _ _ place (h.enter node place)
          have hlast : (origins (.enter node :: rest)).getLast?.or last =
              (origins rest).getLast?.or (node.origin.or last) := by
            rw [origins, List.filterMap_cons, Piece.origin]
            cases node.origin with
            | none => rfl
            | some origin =>
                rw [← origins, List.getLast?_cons]
                cases (origins rest).getLast? <;> rfl
          rw [hlast]
          exact hrest

end Remembers

theorem follow_append (recorder : Recorder) (place : Place) (left right : List Piece) :
    recorder.follow place (left ++ right) =
      (recorder.follow place left).follow (place.after (chars left)) right := by
  induction left generalizing recorder place with
  | nil => rfl
  | cons piece left ih =>
      cases piece with
      | text written =>
          rw [List.cons_append, chars_text, Place.after_append]
          exact ih recorder (place.after written.toList)
      | enter node => exact ih (recorder.enter node place) place
      | leave node => exact ih (recorder.leave node place) place

theorem leave_untracked {node : Node} (h : node.isTracked = false) (recorder : Recorder)
    (place : Place) : recorder.leave node place = recorder := by
  have h' : isTracked node.type = false := h
  unfold leave
  rw [h']
  rfl

theorem leave_tracked {recorder : Recorder} {node : Node} (h : node.isTracked = true)
    (hmappings : recorder.mappings ≠ []) (place : Place) :
    recorder.leave node place = { recorder with pendingEnd := some place } := by
  have h' : isTracked node.type = true := h
  have hstarted : recorder.mappings.isEmpty = false := List.isEmpty_eq_false_iff.mpr hmappings
  unfold leave
  rw [h', hstarted]
  rfl

/-- When no range end is pending, the node of the latest mapping has not ended. -/
theorem exists_open {recorder : Recorder} {place : Place} {pieces : List Piece}
    (hempty : recorder.mappings = [])
    (hmappings : (recorder.follow place pieces).mappings ≠ [])
    (hpending : (recorder.follow place pieces).pendingEnd = none) :
    exists before node behind, pieces = before ++ .enter node :: behind ∧
      node.origin ≠ none ∧ forall piece, piece ∈ behind -> piece.GoesOn := by
  induction pieces using List.reverseRecOn with
  | nil => exact absurd hempty hmappings
  | append_singleton pieces piece ih =>
      -- a piece that changes nothing stands behind the node of the latest mapping
      have hskip : piece.GoesOn ->
          (recorder.follow place (pieces ++ [piece])) = recorder.follow place pieces ->
          exists before node behind, pieces ++ [piece] = before ++ .enter node :: behind ∧
            node.origin ≠ none ∧ forall piece, piece ∈ behind -> piece.GoesOn := by
        intro hgoesOn heq
        rw [heq] at hmappings hpending
        rcases ih hmappings hpending with ⟨before, node, behind, rfl, hnode, hbehind⟩
        refine ⟨before, node, behind ++ [piece], ?_, hnode, ?_⟩
        · rw [List.append_assoc]
          rfl
        · intro other hother
          rcases List.mem_append.mp hother with hother | hother
          · exact hbehind other hother
          · rw [List.mem_singleton.mp hother]
            exact hgoesOn
      rw [follow_append] at hmappings hpending hskip
      cases piece with
      | text written => exact hskip trivial rfl
      | enter node =>
          cases horigin : node.origin with
          | none => exact hskip trivial (enter_of_origin_none horigin _ _)
          | some origin =>
              refine ⟨pieces, node, [], rfl, ?_, ?_⟩
              · rw [horigin]
                exact Option.some_ne_none origin
              · intro piece hnil
                cases hnil
      | leave node =>
          cases htracked : node.isTracked with
          | false => exact hskip htracked (leave_untracked htracked _ _)
          | true =>
              have hkeeps := (leave_keeps (recorder.follow place pieces) node
                (place.after (chars pieces))).right.right
              change (Recorder.leave _ node _).mappings ≠ [] at hmappings
              change (Recorder.leave _ node _).pendingEnd = none at hpending
              rw [hkeeps] at hmappings
              rw [leave_tracked htracked hmappings] at hpending
              cases hpending

/-! ## The last mapping up to a place -/

section Past

variable {recorder : Recorder} {here place : Place}

theorem find?_cons_past (hpast : here < place) (source : Option SourcePlace)
    (mappings : List Mapping) :
    (⟨place, source⟩ :: mappings).find? (fun mapping => mapping.generated <= here) =
      mappings.find? fun mapping => mapping.generated <= here := by
  refine List.find?_cons_of_neg ?_
  rw [decide_eq_true_iff, Place.le_iff]
  rw [Place.lt_iff] at hpast
  dsimp only
  omega

theorem find?_cons_upTo {mapping : Mapping} (h : mapping.generated <= here)
    (mappings : List Mapping) :
    (mapping :: mappings).find? (fun mapping => mapping.generated <= here) = some mapping :=
  List.find?_cons_of_pos (decide_eq_true h)

theorem find?_map (source : SourcePlace) (hpast : here < place)
    (hpending : forall stop, stop ∈ recorder.pendingEnd -> here < stop) :
    (recorder.map source place).mappings.find? (fun mapping => mapping.generated <= here) =
      recorder.mappings.find? fun mapping => mapping.generated <= here := by
  unfold Recorder.map
  dsimp only
  rw [find?_cons_past hpast]
  split
  · rename_i stop hstop
    split
    · rfl
    · exact find?_cons_past (hpending stop hstop) none recorder.mappings
  · rfl

/-- What is recorded behind a place changes nothing up to it. -/
theorem lastUpTo_finish_follow {pieces : List Piece} (hpast : here < place)
    (hpending : forall stop, stop ∈ recorder.pendingEnd -> here < stop) :
    lastUpTo here (recorder.follow place pieces).finish =
      recorder.mappings.find? fun mapping => mapping.generated <= here := by
  induction pieces generalizing recorder place with
  | nil =>
      show lastUpTo here recorder.finish = _
      unfold finish
      split
      · exact lastUpTo_reverse here _
      · rename_i stop hstop
        split
        · exact lastUpTo_reverse here _
        · rw [lastUpTo_reverse]
          exact find?_cons_past (hpending stop hstop) none recorder.mappings
  | cons piece rest ih =>
      cases piece with
      | text written => exact ih (Place.lt_of_lt_of_le hpast (Place.le_after place _)) hpending
      | enter node =>
          show lastUpTo here ((recorder.enter node place).follow place rest).finish = _
          unfold enter
          split
          · dsimp only
            split
            · exact ih hpast hpending
            · rw [ih hpast (by intro stop hstop; cases hstop)]
              exact find?_map _ hpast hpending
          · exact ih hpast hpending
      | leave node =>
          have hkeeps := (leave_keeps recorder node place).right.right
          show lastUpTo here ((recorder.leave node place).follow place rest).finish = _
          rw [ih hpast ?_, hkeeps]
          intro stop hstop
          unfold leave at hstop
          split at hstop
          · cases hstop
            exact hpast
          · exact hpending stop hstop

/--
A range end that is pending before a place is recorded when a mapping starts behind the place,
and is lost when a node ends before that.
-/
theorem lastUpTo_finish_follow_of_pending {stop : Place} {last : Option (String × Place)}
    {pieces : List Piece} (hremembers : Remembers last recorder)
    (hmappings : recorder.mappings ≠ []) (hpending : recorder.pendingEnd = some stop)
    (hstop : stop <= here) (hpast : here < place)
    (hended : exists node, Piece.leave node ∈ pieces ∧ node.isTracked = true) :
    StartsAnother last pieces ∧
        lastUpTo here (recorder.follow place pieces).finish = some ⟨stop, none⟩ ∨
      ¬ StartsAnother last pieces ∧
        lastUpTo here (recorder.follow place pieces).finish =
          recorder.mappings.find? fun mapping => mapping.generated <= here := by
  induction pieces generalizing place with
  | nil =>
      rcases hended with ⟨node, hnil, _⟩
      cases hnil
  | cons piece rest ih =>
      rcases hended with ⟨ended, hmem, hended⟩
      have hrest : piece.GoesOn ->
          exists node, Piece.leave node ∈ rest ∧ node.isTracked = true := by
        intro hgoesOn
        refine ⟨ended, (List.mem_cons.mp hmem).resolve_left ?_, hended⟩
        rintro rfl
        exact absurd hended (ne_true_of_eq_false hgoesOn)
      cases piece with
      | text written =>
          rw [startsAnother_cons_of_goesOn (.text written) trivial (absurd rfl)]
          exact ih (Place.lt_of_lt_of_le hpast (Place.le_after place _)) (hrest trivial)
      | enter node =>
          by_cases hsame : node.origin ≠ none -> node.origin = last
          · have henter : recorder.enter node place = recorder := by
              cases horigin : node.origin with
              | none => exact enter_of_origin_none horigin recorder place
              | some origin =>
                  rw [hremembers.enter_eq horigin, if_pos]
                  rw [← hsame (horigin ▸ Option.some_ne_none origin), horigin]
            rw [startsAnother_cons_of_goesOn (.enter node) trivial hsame, follow, henter]
            exact ih hpast (hrest trivial)
          · rw [Classical.not_imp] at hsame
            rcases Option.ne_none_iff_exists'.mp hsame.left with ⟨origin, horigin⟩
            have hother : last ≠ some origin := by
              intro heq
              exact hsame.right (horigin.trans heq.symm)
            refine Or.inl ⟨startsAnother_cons_iff.mpr (Or.inl ⟨node, rfl, hsame⟩), ?_⟩
            have hne : stop ≠ place := by
              rintro rfl
              exact Place.ne_of_lt (Place.lt_of_lt_of_le hpast hstop) rfl
            rw [follow, hremembers.enter_eq horigin, if_neg hother,
              lastUpTo_finish_follow hpast (by intro stop hstop; cases hstop), Recorder.map]
            simp only [hpending, if_neg hne]
            rw [find?_cons_past hpast]
            exact find?_cons_upTo hstop _
      | leave node =>
          cases htracked : node.isTracked with
          | false =>
              rw [startsAnother_cons_of_goesOn (.leave node) htracked (absurd rfl),
                follow, leave_untracked htracked]
              exact ih hpast (hrest htracked)
          | true =>
              refine Or.inr ⟨?_, ?_⟩
              · rw [startsAnother_cons_iff]
                rintro (⟨other, hother, _⟩ | ⟨hgoesOn, _⟩)
                · cases hother
                · exact absurd htracked (ne_true_of_eq_false hgoesOn)
              · rw [follow, leave_tracked htracked hmappings]
                refine lastUpTo_finish_follow hpast ?_
                rintro _ ⟨⟩
                exact hpast

/-- The mapping of the node that has not ended, or the last one that has, stands up to here. -/
theorem exists_find?_mappings (hsteady : Steady recorder) (horderly : Orderly recorder place)
    (hle : place <= here) (hmappings : recorder.mappings ≠ []) :
    exists mapping, recorder.mappings.find? (fun mapping => mapping.generated <= here) =
        some mapping ∧ mapping.isRangeEnd = false := by
  rcases List.exists_cons_of_ne_nil hmappings with ⟨mapping, rest, heq⟩
  have hpassed : mapping.generated <= here := by
    refine Place.le_trans (horderly.passed mapping ?_) hle
    rw [heq]
    exact List.mem_cons_self
  refine ⟨mapping, ?_, hsteady.ahead mapping ?_⟩
  · rw [heq]
    exact find?_cons_upTo hpassed rest
  · rw [heq]
    rfl

theorem origins_eq_nil_iff {origins : List (String × Place)} (hsteady : Steady recorder)
    (hremembers : Remembers origins.getLast? recorder) :
    origins = [] <-> recorder.mappings = [] := by
  have hlatest : origins = [] <-> recorder.latest = none := by
    rw [hremembers.latest, Option.map_eq_none_iff, List.getLast?_eq_none_iff]
  rw [hlatest, hsteady.latest, List.head?_eq_none_iff]
  constructor
  · intro hnone
    cases hmappings : recorder.mappings with
    | nil => rfl
    | cons mapping rest =>
        have hahead := hsteady.ahead mapping (hmappings ▸ rfl)
        rw [hmappings] at hnone
        rcases mapping with ⟨generated, _ | source⟩
        · cases hahead
        · cases hnone
  · intro hnil
    rw [hnil]
    rfl

end Past

end Recorder

/-! ## Text of nodes without a location -/

theorem lt_length_of_hasTracked {tree : Node} {located : Bool} {offset : Nat}
    (h : tree.HasTracked located offset) : offset < (chars tree.pieces).length := by
  rcases h with ⟨start, hstart, _, _, hlt⟩
  rcases standsIn_of_mem_starts (List.mem_filter.mp hstart).left with ⟨after, hafter⟩
  have hlength := congrArg List.length hafter
  rw [Node.chars_pieces]
  simp only [List.length_append, List.nil_append, String.length_toList] at hlength ⊢
  omega

/-- A text among pieces that is cut, its front behind the texts before it. -/
theorem take_chars {front : List Piece} {written : String} {offset : Nat} (back : List Piece)
    (hle : (chars front).length <= offset)
    (hlt : offset < (chars front).length + written.length) :
    exists left right, right ≠ [] ∧ written.toList = left ++ right ∧
      (chars (front ++ .text written :: back)).take offset = chars front ++ left := by
  refine ⟨written.toList.take (offset - (chars front).length),
    written.toList.drop (offset - (chars front).length), ?_, (List.take_append_drop _ _).symm, ?_⟩
  · intro hnil
    have hlength := List.drop_eq_nil_iff.mp hnil
    rw [String.length_toList] at hlength
    omega
  · rw [chars_append, chars_text, List.take_append, List.take_of_length_le hle,
      List.take_append_of_le_length]
    rw [String.length_toList]
    omega

/--
A character of a node without a location, and of none with a location, belongs to no source if
nothing is mapped before it, or if a mapping starts behind it before a tracked node ends.
Where a node without a location ends first, its text belongs to the last node mapped before.
-/
theorem unmapped_iff {tree : Node} {recorder : Recorder} {offset : Nat}
    (hrecorder : ((Writer.start (some .empty)).node tree).recorder = some recorder)
    (hfresh : tree.HasTracked false offset) (hfree : ¬ tree.HasTracked true offset) :
    exists front written back, tree.pieces = front ++ .text written :: back ∧
      (chars front).length <= offset ∧ offset < (chars front).length + written.length ∧
      (Mapping.Unmapped recorder.finish (Place.start.after (tree.render.toList.take offset)) <->
        origins front = [] ∨ StartsAnother (origins front).getLast? back) := by
  rcases exists_text (lt_length_of_hasTracked hfresh) with
    ⟨front, written, back, hpieces, hle, hlt⟩
  refine ⟨front, written, back, hpieces, hle, hlt, ?_⟩
  rcases take_chars back hle hlt with ⟨left, right, hright, hwritten, htake⟩
  rw [Writer.node, Writer.foldl_piece] at hrecorder
  cases hrecorder
  change Mapping.Unmapped (Recorder.empty.follow .start tree.pieces).finish _ <-> _
  rw [← Node.chars_pieces, hpieces, htake, Recorder.follow_append, Recorder.follow, hwritten]
  -- the recorder between the pieces before the text and those behind it
  have hsteady : Recorder.Steady (Recorder.empty.follow .start front) :=
    Recorder.Steady.empty.follow
  have horderly : Recorder.Orderly (Recorder.empty.follow .start front)
      (Place.start.after (chars front)) := (Recorder.Orderly.empty .start).follow
  have hremembers : Recorder.Remembers ((origins front).getLast?.or none)
      (Recorder.empty.follow .start front) := Recorder.Remembers.empty.follow
  rw [Option.or_none] at hremembers
  have hhere : Place.start.after (chars front) <= Place.start.after (chars front ++ left) := by
    rw [Place.after_append]
    exact Place.le_after _ left
  have hpast : Place.start.after (chars front ++ left) <
      (Place.start.after (chars front)).after (left ++ right) := by
    rw [Place.after_append, Place.after_append]
    exact Place.lt_after _ hright
  rw [Recorder.origins_eq_nil_iff hsteady hremembers]
  by_cases hmappings : (Recorder.empty.follow .start front).mappings = []
  · have hpending : (Recorder.empty.follow .start front).pendingEnd = none := by
      by_contra hsome
      exact hsteady.started hsome hmappings
    refine iff_of_true ?_ (Or.inl hmappings)
    intro mapping hmem
    rw [Recorder.lastUpTo_finish_follow hpast (by rw [hpending]; intro stop hstop; cases hstop),
      hmappings] at hmem
    cases hmem
  · rcases Recorder.exists_find?_mappings hsteady horderly hhere hmappings with
      ⟨mapping, hfind, hmapping⟩
    cases hpending : (Recorder.empty.follow .start front).pendingEnd with
    | none =>
        rcases Recorder.exists_open rfl hmappings hpending with
          ⟨before, node, behind, hfront, horigin, hbehind⟩
        rcases Node.isTracked_of_origin horigin with ⟨htracked, hlocated⟩
        have hopen := hasTracked_of_open hpieces hfront htracked hbehind hle hlt
        rw [hlocated] at hopen
        exact absurd hopen hfree
    | some stop =>
        have hstop := (horderly.ended stop hpending).left
        rcases Recorder.lastUpTo_finish_follow_of_pending hremembers hmappings hpending
          (Place.le_trans hstop hhere) hpast (exists_leave_of_hasTracked hpieces hfresh hle) with
          ⟨hstarts, hlast⟩ | ⟨hstarts, hlast⟩
        · refine iff_of_true ?_ (Or.inr hstarts)
          intro last hmem
          rw [hlast] at hmem
          cases hmem
          rfl
        · refine iff_of_false ?_ ?_
          · intro hunmapped
            rw [hunmapped mapping (hlast.trans hfind)] at hmapping
            cases hmapping
          · rintro (hnil | hstarts')
            · exact hmappings hnil
            · exact hstarts hstarts'

/-- A declaration that was read, and one without a location behind it. -/
def halfLocated : Node :=
  ⟨.declarationList [
    ⟨.declaration false "a" ⟨.value [⟨.identifier "b", none⟩], none⟩,
      some ⟨"a.css", .start, .start⟩⟩,
    ⟨.declaration false "c" ⟨.value [⟨.identifier "d", none⟩], none⟩, none⟩], none⟩

/-- The text of the second declaration is taken for text of the first one. -/
theorem unmapped_iff_halfLocated :
    exists recorder front written back,
      ((Writer.start (some .empty)).node halfLocated).recorder = some recorder ∧
        halfLocated.HasTracked false 5 ∧ ¬ halfLocated.HasTracked true 5 ∧
        halfLocated.pieces = front ++ .text written :: back ∧
        (chars front).length <= 5 ∧ 5 < (chars front).length + written.length ∧
        (Mapping.Unmapped recorder.finish
            (Place.start.after (halfLocated.render.toList.take 5)) <->
          origins front = [] ∨ StartsAnother (origins front).getLast? back) := by
  have hfresh : halfLocated.HasTracked false 5 := by decide +kernel
  have hfree : ¬ halfLocated.HasTracked true 5 := by decide +kernel
  rcases unmapped_iff rfl hfresh hfree with ⟨front, written, back, hsplit⟩
  exact ⟨_, front, written, back, rfl, hfresh, hfree, hsplit⟩

/-- Text of a declaration without a location may be mapped. -/
theorem exists_mapped_of_fresh : exists tree recorder offset,
    ((Writer.start (some .empty)).node tree).recorder = some recorder ∧
      tree.HasTracked false offset ∧ ¬ tree.HasTracked true offset ∧
      ¬ Mapping.Unmapped recorder.finish
        (Place.start.after (tree.render.toList.take offset)) := by
  refine ⟨halfLocated, _, 5, rfl, ?_, ?_, ?_⟩
  · decide +kernel
  · decide +kernel
  · intro hunmapped
    have hlast : Mapping.lastUpTo (Place.start.after (halfLocated.render.toList.take 5))
        (Recorder.finish ⟨["a.css"], [⟨.start, some ⟨0, 0, 0⟩⟩], some ⟨0, 0, 0⟩, some ⟨0, 7⟩⟩) =
          some ⟨.start, some ⟨0, 0, 0⟩⟩ := by
      decide +kernel
    cases hunmapped _ hlast

end Stylesheet
