import Stylesheet.Mapping.Decoding
import Stylesheet.Mapping.Encoding
import Stylesheet.Proofs.Mapping.Vlq
import Stylesheet.Proofs.Text.Split

/-!
# Reading written mappings

Writer and reader move through the text with baselines of their own.  The writer's
baseline behind a mapping tells the state in which the reader meets the rest of the text:
the rest of a line of segments, and the lines that follow.  Main statement: mappings whose
lines never go back are read as they were written.
-/

namespace Stylesheet
namespace Mapping

/-- The bound of the numbers that a mapping can be made of. -/
def bound : Nat := 2 ^ 63

def SourceFits (source : SourcePlace) : Prop :=
  source.index < bound ∧ source.line < bound ∧ source.column < bound

/-- Every number of a mapping is below the bound. -/
def Fits (mapping : Mapping) : Prop :=
  mapping.generated.line < bound ∧ mapping.generated.column < bound ∧
    forall source, source ∈ mapping.source -> SourceFits source

instance (source : SourcePlace) : Decidable (SourceFits source) :=
  inferInstanceAs (Decidable (_ ∧ _ ∧ _))

instance (mapping : Mapping) : Decidable mapping.Fits :=
  inferInstanceAs (Decidable (_ ∧ _ ∧ forall source, source ∈ mapping.source -> _))

/-! ## Differences -/

theorem difference_eq {count before : Nat} (hcount : count < bound)
    (hbefore : before < bound) : difference count before = (count : Int) - before := by
  unfold bound at hcount hbefore
  unfold difference Vlq.modulus
  rw [Int.bmod_eq_of_le] <;> omega

theorem natAbs_difference_lt {count before : Nat} (hcount : count < bound)
    (hbefore : before < bound) : (difference count before).natAbs < 2 ^ 63 := by
  rw [difference_eq hcount hbefore]
  unfold bound at hcount hbefore
  omega

theorem shift?_difference {count before : Nat} (hcount : count < bound)
    (hbefore : before < bound) : shift? before (difference count before) = some count := by
  have hsum : (before : Int) + difference count before = count := by
    rw [difference_eq hcount hbefore]
    omega
  unfold shift?
  rw [hsum, if_pos (Int.natCast_nonneg count), Int.toNat_natCast]

theorem shiftSource?_difference {source before : SourcePlace} (h : SourceFits source)
    (hbefore : SourceFits before) :
    shiftSource? before (difference source.index before.index)
      (difference source.line before.line) (difference source.column before.column) =
        some source := by
  unfold shiftSource?
  rw [shift?_difference h.left hbefore.left, shift?_difference h.right.left hbefore.right.left,
    shift?_difference h.right.right hbefore.right.right]
  rfl

/-! ## One segment -/

/-- The segment of a mapping behind a column and a place in a source. -/
def segment (column : Nat) (before : SourcePlace) (mapping : Mapping) : List Char :=
  (Vlq.encode (difference mapping.generated.column column) ++
    ((mapping.source.map (encodeSource before)).getD "")).toList

theorem not_mem_segment {c : Char} (h : Vlq.digitValue? c = none) (column : Nat)
    (before : SourcePlace) (mapping : Mapping) : c ∉ segment column before mapping := by
  have hvlq := Vlq.not_mem_encode h
  unfold segment encodeSource
  rw [String.toList_append, List.mem_append, not_or]
  constructor
  · exact hvlq _
  · cases mapping.source with
    | none => exact List.not_mem_nil
    | some source =>
        show c ∉ (_ ++ _ ++ _ : String).toList
        rw [String.toList_append, String.toList_append, List.mem_append, List.mem_append,
          not_or, not_or]
        exact ⟨⟨hvlq _, hvlq _⟩, hvlq _⟩

theorem readSegments?_segment {line column : Nat} {before : SourcePlace} {mapping : Mapping}
    (hline : mapping.generated.line = line) (hcolumn : column < bound)
    (hbefore : SourceFits before) (h : mapping.Fits) (rest : List (List Char)) :
    readSegments? line column before (segment column before mapping :: rest) =
      (readSegments? line mapping.generated.column (mapping.source.getD before) rest).map
        fun (mappings, last) => (mapping :: mappings, last) := by
  rcases mapping with ⟨⟨generatedLine, generatedColumn⟩, source⟩
  rcases h with ⟨_, hgenerated, hsource⟩
  cases hline
  have hfirst := natAbs_difference_lt hgenerated hcolumn
  cases source with
  | none =>
      have hread : Vlq.readAll? (segment column before ⟨⟨generatedLine, generatedColumn⟩, none⟩) =
          some [difference generatedColumn column] := by
        unfold segment
        rw [Option.map_none, Option.getD_none, String.append_empty]
        exact Vlq.readAll?_encode hfirst
      rw [readSegments?, hread]
      show (shift? column (difference generatedColumn column)).bind _ = _
      rw [shift?_difference hgenerated hcolumn]
      show (readSegments? generatedLine generatedColumn before rest).bind _ =
        (readSegments? generatedLine generatedColumn before rest).map _
      exact Option.map_eq_bind.symm
  | some source =>
      have hfits : SourceFits source := hsource source rfl
      have hread :
          Vlq.readAll?
              (segment column before ⟨⟨generatedLine, generatedColumn⟩, some source⟩) =
            some [difference generatedColumn column, difference source.index before.index,
              difference source.line before.line,
              difference source.column before.column] := by
        unfold segment encodeSource
        rw [Option.map_some, Option.getD_some, String.toList_append, String.toList_append,
          String.toList_append, Vlq.readAll?_encode_append hfirst, List.append_assoc,
          Vlq.readAll?_encode_append (natAbs_difference_lt hfits.left hbefore.left),
          Vlq.readAll?_encode_append (natAbs_difference_lt hfits.right.left hbefore.right.left),
          Vlq.readAll?_encode (natAbs_difference_lt hfits.right.right hbefore.right.right)]
        rfl
      rw [readSegments?, hread]
      show (shift? column (difference generatedColumn column)).bind _ = _
      rw [shift?_difference hgenerated hcolumn]
      show (shiftSource? before _ _ _).bind _ = _
      rw [shiftSource?_difference hfits hbefore]
      show (readSegments? generatedLine generatedColumn source rest).bind _ =
        (readSegments? generatedLine generatedColumn source rest).map _
      exact Option.map_eq_bind.symm

/-! ## Lines -/

theorem segments_append_joinTail {part : List Char} {parts : List (List Char)}
    (hne : part ≠ []) (h : ',' ∉ part) (hparts : forall other, other ∈ parts -> ',' ∉ other) :
    segments (part ++ joinTail ',' parts) = part :: parts := by
  rcases List.exists_cons_of_ne_nil hne with ⟨c, more, rfl⟩
  rw [← splitText_append_joinTail h hparts]
  rfl

theorem readLines?_replicate (count line : Nat) (source : SourcePlace)
    (lines : List (List Char)) :
    readLines? line source (List.replicate count [] ++ lines) =
      readLines? (line + count) source lines := by
  induction count generalizing line with
  | zero => rfl
  | succ count ih =>
      rw [List.replicate_succ, List.cons_append, readLines?]
      show (readLines? (line + 1) source _).bind some = _
      rw [Option.bind_fun_some, ih, Nat.add_right_comm, Nat.add_assoc]

theorem readLines?_cons {line : Nat} {source last : SourcePlace} {part : List Char}
    {parts lines : List (List Char)} {here later : List Mapping}
    (hne : part ≠ []) (hpart : ',' ∉ part) (hparts : forall other, other ∈ parts -> ',' ∉ other)
    (hhere : readSegments? line 0 source (part :: parts) = some (here, last))
    (hlater : readLines? (line + 1) last lines = some later) :
    readLines? line source ((part ++ joinTail ',' parts) :: lines) = some (here ++ later) := by
  rw [readLines?, segments_append_joinTail hne hpart hparts, hhere]
  show (readLines? (line + 1) last lines).bind _ = _
  rw [hlater]
  rfl

/-! ## The whole text -/

theorem segment_ne_nil (column : Nat) (before : SourcePlace) (mapping : Mapping) :
    segment column before mapping ≠ [] := by
  unfold segment
  rw [String.toList_append, Vlq.toList_encode]
  exact List.append_ne_nil_of_left_ne_nil (Vlq.groups_map_digit_ne_nil _) _

theorem toList_encodeOne (base : Baseline) (mapping : Mapping) :
    (encodeOne base mapping).toList =
      List.replicate (mapping.generated.line - base.line) ';' ++
        ((if (base.toLine mapping.generated.line).isLineStart then [] else [',']) ++
          segment (base.toLine mapping.generated.line).column base.source mapping) := by
  unfold encodeOne lineEnds segment
  rw [String.append_assoc, String.append_assoc, String.toList_append, String.toList_ofList,
    String.toList_append, apply_ite String.toList]
  rfl

/-- The reader behind a baseline finds the mappings in a text: on the line, then on later ones. -/
def Reads (base : Baseline) (text : List Char) (mappings : List Mapping) : Prop :=
  exists parts lines here last later,
    splitText ';' text = joinTail ',' parts :: lines ∧
    (forall part, part ∈ parts -> ',' ∉ part) ∧
    readSegments? base.line base.column base.source parts = some (here, last) ∧
    readLines? (base.line + 1) last lines = some later ∧
    mappings = here ++ later

/-- A baseline from which every difference is written without loss. -/
def Baseline.Fits (base : Baseline) : Prop :=
  base.column < bound ∧ SourceFits base.source

theorem fits_start : Baseline.start.Fits := by
  constructor
  · decide
  · decide

theorem toLine_of_lt {base : Baseline} {line : Nat} (h : base.line < line) :
    base.toLine line = ⟨line, true, 0, base.source⟩ :=
  if_pos h

theorem toLine_self (base : Baseline) : base.toLine base.line = base :=
  if_neg (Nat.lt_irrefl base.line)

theorem source_toLine (base : Baseline) (line : Nat) :
    (base.toLine line).source = base.source := by
  unfold Baseline.toLine
  split <;> rfl

theorem line_advance {base : Baseline} {mapping : Mapping}
    (h : base.line <= mapping.generated.line) :
    (advance base mapping).line = mapping.generated.line := by
  show (base.toLine mapping.generated.line).line = _
  rcases Nat.lt_or_eq_of_le h with hlt | heq
  · rw [toLine_of_lt hlt]
  · rw [← heq, toLine_self]

theorem source_advance (base : Baseline) (mapping : Mapping) :
    (advance base mapping).source = mapping.source.getD base.source := by
  show mapping.source.getD (base.toLine mapping.generated.line).source = _
  rw [source_toLine]

theorem fits_advance {base : Baseline} {mapping : Mapping} (hbase : base.Fits)
    (h : mapping.Fits) : (advance base mapping).Fits := by
  constructor
  · exact h.right.left
  · rw [source_advance]
    cases hsource : mapping.source with
    | none => exact hbase.right
    | some source => exact h.right.right source hsource

/-- A mapping that begins a line, whatever empty lines come before it. -/
theorem readLines?_of_reads {base : Baseline} {mapping : Mapping} {text : List Char}
    {mappings : List Mapping} {line count : Nat}
    (hline : line + count = mapping.generated.line) (hle : base.line <= line + count)
    (hbase : SourceFits base.source) (h : mapping.Fits)
    (hreads : Reads (advance base mapping) text mappings) :
    readLines? line base.source
        (splitText ';' (List.replicate count ';' ++ (segment 0 base.source mapping ++ text))) =
      some (mapping :: mappings) := by
  rcases hreads with ⟨parts, lines, here, last, later, hsplit, hparts, hhere, hlater, rfl⟩
  rw [line_advance (hline ▸ hle)] at hhere hlater
  rw [source_advance] at hhere
  have hsegment : readSegments? mapping.generated.line 0 base.source
      (segment 0 base.source mapping :: parts) = some (mapping :: here, last) := by
    rw [readSegments?_segment rfl (by decide) hbase h]
    show (readSegments? _ (advance base mapping).column _ parts).map _ = _
    rw [hhere]
    rfl
  rw [splitText_replicate, splitText_append (not_mem_segment rfl _ _ _) hsplit,
    readLines?_replicate, hline]
  exact readLines?_cons (segment_ne_nil _ _ _) (not_mem_segment rfl _ _ _) hparts hsegment
    hlater

theorem reads_encodeFrom {base : Baseline} {mappings : List Mapping}
    (hisLineStart : base.isLineStart = false) (hbase : base.Fits)
    (hle : forall mapping, mapping ∈ mappings -> base.line <= mapping.generated.line)
    (hsorted : mappings.Pairwise fun left right => left.generated.line <= right.generated.line)
    (hfits : forall mapping, mapping ∈ mappings -> mapping.Fits) :
    Reads base (encodeFrom base mappings).toList mappings := by
  induction mappings generalizing base with
  | nil =>
      refine ⟨[], [], [], base.source, [], rfl, ?_, rfl, rfl, rfl⟩
      intro part hmem
      cases hmem
  | cons mapping rest ih =>
      rcases List.pairwise_cons.mp hsorted with ⟨hfirst, hsorted⟩
      have hmapping := hfits mapping List.mem_cons_self
      have hline := hle mapping List.mem_cons_self
      have hrest : Reads (advance base mapping) (encodeFrom (advance base mapping) rest).toList
          rest := by
        refine ih rfl (fits_advance hbase hmapping) ?_ hsorted ?_
        · intro later hlater
          rw [line_advance hline]
          exact hfirst later hlater
        · intro later hlater
          exact hfits later (List.mem_cons_of_mem mapping hlater)
      rw [encodeFrom, String.toList_append, toList_encodeOne, List.append_assoc,
        List.append_assoc]
      rcases Nat.lt_or_eq_of_le hline with hlt | heq
      · -- The rest of the current line is empty, and the mapping begins a later one.
        rcases Nat.exists_eq_add_of_lt hlt with ⟨count, hcount⟩
        have hskip : mapping.generated.line - base.line = count + 1 := by omega
        rw [toLine_of_lt hlt, hskip, if_pos rfl, List.nil_append]
        refine ⟨[], _, [], base.source, mapping :: rest, splitText_separator _ _, ?_, rfl, ?_,
          rfl⟩
        · intro part hmem
          cases hmem
        · exact readLines?_of_reads (by omega) (by omega) hbase.right hmapping hrest
      · rw [← heq, Nat.sub_self, toLine_self, hisLineStart]
        rcases hrest with ⟨parts, lines, here, last, later, hsplit, hparts, hhere, hlater, hsum⟩
        rw [line_advance hline, ← heq] at hhere hlater
        rw [source_advance] at hhere
        have hfront : ';' ∉ ',' :: segment base.column base.source mapping :=
          List.not_mem_cons_of_ne_of_not_mem (by decide) (not_mem_segment rfl _ _ _)
        refine ⟨segment base.column base.source mapping :: parts, lines, mapping :: here, last,
          later, ?_, ?_, ?_, hlater, by rw [hsum]; rfl⟩
        · show splitText ';' (',' :: segment base.column base.source mapping ++ _) = _
          exact splitText_append hfront hsplit
        · intro part hmem
          rcases List.mem_cons.mp hmem with rfl | hmem
          · exact not_mem_segment rfl _ _ _
          · exact hparts part hmem
        · rw [readSegments?_segment heq.symm hbase.left hbase.right hmapping]
          show (readSegments? _ (advance base mapping).column _ parts).map _ = _
          rw [hhere]
          rfl

theorem decode?_encode {mappings : List Mapping}
    (hsorted : mappings.Pairwise fun left right => left.generated.line <= right.generated.line)
    (hfits : forall mapping, mapping ∈ mappings -> mapping.Fits) :
    decode? (encode mappings) = some mappings := by
  cases mappings with
  | nil => rfl
  | cons mapping rest =>
      rcases List.pairwise_cons.mp hsorted with ⟨hfirst, hsorted⟩
      have hmapping := hfits mapping List.mem_cons_self
      have hrest : Reads (advance .start mapping)
          (encodeFrom (advance .start mapping) rest).toList rest := by
        refine reads_encodeFrom rfl (fits_advance fits_start hmapping) ?_ hsorted ?_
        · intro later hlater
          rw [line_advance (Nat.zero_le _)]
          exact hfirst later hlater
        · intro later hlater
          exact hfits later (List.mem_cons_of_mem mapping hlater)
      have hmoved : Baseline.start.toLine mapping.generated.line =
          ⟨mapping.generated.line, true, 0, ⟨0, 0, 0⟩⟩ := by
        unfold Baseline.toLine
        split
        · rfl
        · rename_i hzero
          rw [Nat.eq_zero_of_not_pos hzero]
          rfl
      unfold decode? encode
      rw [encodeFrom, String.toList_append, toList_encodeOne, List.append_assoc,
        List.append_assoc, hmoved, if_pos rfl, List.nil_append]
      exact readLines?_of_reads (Nat.zero_add _) (Nat.zero_le _) fits_start.right hmapping hrest

/-- Lines are skipped, columns go back, a place comes twice and a range ends on a later line. -/
theorem decode?_encode_skipped_lines :
    decode? (encode
      [⟨⟨2, 9⟩, some ⟨1, 40, 7⟩⟩, ⟨⟨2, 3⟩, some ⟨0, 2, 900⟩⟩, ⟨⟨2, 3⟩, none⟩,
        ⟨⟨5, 0⟩, none⟩, ⟨⟨5, 4⟩, some ⟨0, 2, 9223372036854775807⟩⟩]) =
      some [⟨⟨2, 9⟩, some ⟨1, 40, 7⟩⟩, ⟨⟨2, 3⟩, some ⟨0, 2, 900⟩⟩, ⟨⟨2, 3⟩, none⟩,
        ⟨⟨5, 0⟩, none⟩, ⟨⟨5, 4⟩, some ⟨0, 2, 9223372036854775807⟩⟩] := by
  apply decode?_encode
  · decide
  · decide

end Mapping
end Stylesheet
