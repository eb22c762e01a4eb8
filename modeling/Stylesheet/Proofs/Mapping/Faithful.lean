import Stylesheet.Generate
import Stylesheet.Proofs.Mapping.Decoding
import Stylesheet.Proofs.Mapping.Recording
import Stylesheet.Proofs.Origin.Sheet

/-!
# Source maps are faithful

Main statement: the map of a stylesheet that was parsed under the name of its file ties the
start of every at-rule, selector and declaration in the generated text to the place of the
source where it was read, and to nothing else.
-/

namespace Stylesheet

open Piece Recorder

/-- The at-rules, selectors and declarations of a tree, in document order. -/
def Node.tracked (tree : Node) : List Node :=
  tree.preorder.filter isTracked

/-- The line and the column of a place in a source. -/
def SourcePlace.place (source : SourcePlace) : Place :=
  ⟨source.line, source.column⟩

/-- A segment ties the start of a node, behind what is written before it, to its origin. -/
structure MapsStart (source css : List Char) (segment : Mapping)
    (start : Node × List Char) : Prop where
  standsIn : StandsIn css start
  generated : segment.generated = Place.start.after start.2
  original : exists location, start.1.location = some location ∧
    segment.source = some ⟨0, location.start.place.line, location.start.place.column⟩
  character : exists c original, segment.source = some original ∧
    Place.charAt? css segment.generated = some c ∧
    Place.charAt? source original.place = some c

/--
A map is faithful to a tree, to its text and to the file that it was parsed from.  The
segments of four fields belong to the tracked nodes, one to each and in document order.
-/
structure SourceMap.IsFaithful (file source : String) (tree : Node) (css : String)
    (map : SourceMap) : Prop where
  sources : map.sources = if tree.tracked = [] then [] else [file]
  starts : (trackedStarts [] tree.pieces).map Prod.fst = tree.tracked
  segments : exists segments, Mapping.decode? map.mappings = some segments ∧
    List.Forall₂ (MapsStart source.toList css.toList) (mapped segments)
      (trackedStarts [] tree.pieces) ∧
    ((mapped segments).Pairwise fun left right => left.generated < right.generated) ∧
    (mapped segments).Pairwise fun left right => forall source, source ∈ left.source ->
      forall source', source' ∈ right.source -> source.place < source'.place

/-! ## Where the tracked nodes come from -/

/-- A node comes from a token of a file: from its start, with its first character. -/
structure ComesFrom (file : String) (node : Node) (token : Token) : Prop where
  location : exists location, node.location = some location ∧ location.sourceName = file ∧
    location.start = token.start
  head : node.render.toList.head? = token.text.toList.head?

theorem comesFrom_of_mark {file : String} {node : Node} {token : Token}
    (h : node.mark = token.mark file) : ComesFrom file node token := by
  rcases node with ⟨construct, _ | location⟩
  · exact absurd (congrArg Mark.origin h) (by intro heq; cases heq)
  · have horigin := congrArg Mark.origin h
    rcases Prod.mk.inj (Option.some.inj horigin) with ⟨hname, hstart⟩
    exact ⟨⟨location, rfl, hname, hstart⟩, congrArg Mark.first h⟩

theorem map_fst_trackedStarts {tree : Node} (h : tree.Regular) :
    (trackedStarts [] tree.pieces).map Prod.fst = tree.tracked := by
  unfold trackedStarts Node.tracked
  rw [← map_fst_starts_pieces (fun inner hinner => (h inner hinner).written) [],
    List.filter_map]
  rfl

theorem marks_eq_map_tracked (tree : Node) : tree.marks = tree.tracked.map Node.mark := rfl

/-- The place in the source that a mark names, when there is one source. -/
def Mark.place? (mark : Mark) : Option SourcePlace :=
  mark.origin.map fun (_, start) => ⟨0, start.place.line, start.place.column⟩

theorem place?_mark (node : Node) : node.mark.place? = origin? 0 node := by
  rcases node with ⟨construct, _ | location⟩ <;> rfl

section Parsed

variable {file source : String} {tree : Node} {tokens : List Token}

/-- The origins of the tracked nodes are the starts of tokens, in their order. -/
theorem exists_origins (htraced : Traced file tokens [tree]) :
    exists some_tokens : List Token, some_tokens.Sublist tokens ∧
      (trackedStarts [] tree.pieces).map (fun start => origin? 0 start.1) =
        some_tokens.map fun token =>
          some ⟨0, token.start.place.line, token.start.place.column⟩ := by
  have hregular := htraced.regular tree List.mem_cons_self
  have hmarks := htraced.marks
  rw [List.flatMap_singleton, List.sublist_map_iff] at hmarks
  rcases hmarks with ⟨front, hfront, heq⟩
  refine ⟨front, hfront, ?_⟩
  have hplaces := congrArg (List.map Mark.place?) heq
  rw [marks_eq_map_tracked, ← map_fst_trackedStarts hregular, List.map_map, List.map_map,
    List.map_map] at hplaces
  have hleft : (Mark.place? ∘ Node.mark) ∘ Prod.fst =
      fun start : Node × List Char => origin? 0 start.1 :=
    funext fun start => place?_mark start.1
  rw [hleft] at hplaces
  exact hplaces

theorem pairwise_origins (hscan : Token.Scan .start source.toList tokens)
    (htraced : Traced file tokens [tree]) :
    (trackedStarts [] tree.pieces).Pairwise fun left right =>
      forall source, source ∈ origin? 0 left.1 ->
        forall source', source' ∈ origin? 0 right.1 -> source.place < source'.place := by
  rcases exists_origins htraced with ⟨front, hfront, horigins⟩
  have hplaces := hscan.pairwise_place.sublist hfront
  have hpairwise : (front.map fun token =>
      (some ⟨0, token.start.place.line, token.start.place.column⟩ : Option SourcePlace)).Pairwise
        fun left right => forall source, source ∈ left -> forall source', source' ∈ right ->
          source.place < source'.place := by
    refine List.pairwise_map.mpr (hplaces.imp ?_)
    rintro left right hlt _ ⟨⟩ _ ⟨⟩
    exact hlt
  rw [← horigins] at hpairwise
  exact List.pairwise_map.mp hpairwise

theorem comesFrom_of_mem (htraced : Traced file tokens [tree]) {node : Node}
    (h : node ∈ tree.tracked) : exists token, token ∈ tokens ∧ ComesFrom file node token := by
  have hmarks := htraced.marks
  rw [List.flatMap_singleton] at hmarks
  rcases List.mem_map.mp (hmarks.subset (List.mem_map_of_mem h)) with ⟨token, htoken, heq⟩
  exact ⟨token, htoken, comesFrom_of_mark heq.symm⟩

theorem mem_tracked_of_mem (htraced : Traced file tokens [tree]) {start : Node × List Char}
    (h : start ∈ trackedStarts [] tree.pieces) : start.1 ∈ tree.tracked := by
  rw [← map_fst_trackedStarts (htraced.regular tree List.mem_cons_self)]
  exact List.mem_map_of_mem h

theorem mapsStart_ofStart (hscan : Token.Scan .start source.toList tokens)
    (htraced : Traced file tokens [tree]) {start : Node × List Char}
    (h : start ∈ trackedStarts [] tree.pieces) :
    MapsStart source.toList tree.render.toList (ofStart start) start := by
  have htracked := mem_tracked_of_mem htraced h
  rcases List.mem_filter.mp htracked with ⟨hpreorder, hisTracked⟩
  rcases comesFrom_of_mem htraced htracked with ⟨token, htoken, ⟨location, hlocation, _, hstart⟩,
    hhead⟩
  have hstands : StandsIn tree.render.toList start :=
    standsIn_of_mem_starts (List.mem_filter.mp h).left
  have hsource : origin? 0 start.1 =
      some ⟨0, location.start.place.line, location.start.place.column⟩ := by
    unfold origin?
    rw [hlocation]
    rfl
  have hrender : start.1.render.toList ≠ [] := by
    rw [← Node.chars_constructPieces_eq]
    have hregular := htraced.regular tree List.mem_cons_self start.1 hpreorder
    exact (hregular.leads hisTracked).chars_ne_nil
  rcases List.exists_cons_of_ne_nil hrender with ⟨c, more, hmore⟩
  refine ⟨hstands, rfl, ⟨location, hlocation, hsource⟩, c, _, hsource, ?_, ?_⟩
  · rcases hstands with ⟨after, hafter⟩
    rw [← hafter, hmore, List.append_assoc]
    exact Place.charAt?_after_start _ _ _
  · rcases hscan.occurs htoken with ⟨front, back, htext, hfront⟩
    rw [hmore, List.head?_cons] at hhead
    rcases List.head?_eq_some_iff.mp hhead.symm with ⟨rest, hrest⟩
    show Place.charAt? _ location.start.place = some c
    rw [hstart, hfront, Position.place_start_after, ← htext, hrest, List.append_assoc]
    exact Place.charAt?_after_start _ _ _

/-! ## The map -/

/-- The recorder behind the pieces of a tree. -/
def recorderOf (tree : Node) : Recorder :=
  Recorder.empty.follow .start tree.pieces

theorem generateWith_eq {options : GenerateOptions} (h : options.sourceMap = true)
    (tree : Node) :
    generateWith options tree = ⟨tree.render,
      some (SourceMap.assemble (recorderOf tree).sources (recorderOf tree).finish options)⟩ := by
  simp only [generateWith, h, if_true, Writer.node, Writer.foldl_piece, Writer.start,
    Option.map_some, Node.chars_pieces, Output.empty, String.ofList_toList, String.empty_append]
  rfl

theorem recorderOf_spec (hscan : Token.Scan .start source.toList tokens)
    (htraced : Traced file tokens [tree]) :
    mapped (recorderOf tree).finish = (trackedStarts [] tree.pieces).map ofStart ∧
      (recorderOf tree).sources = if tree.tracked = [] then [] else [file] := by
  have hlocated : forall start, start ∈ trackedStarts [] tree.pieces ->
      exists location, start.1.location = some location ∧ location.sourceName = file := by
    intro start hstart
    rcases comesFrom_of_mem htraced (mem_tracked_of_mem htraced hstart) with
      ⟨_, _, ⟨location, hlocation, hname, _⟩, _⟩
    exact ⟨location, hlocation, hname⟩
  have hdistinct : (Recorder.empty.latest ::
      (trackedStarts [] tree.pieces).map fun start => origin? 0 start.1).Nodup := by
    refine List.nodup_cons.mpr ⟨?_, List.pairwise_map.mpr ?_⟩
    · intro hnone
      rcases List.mem_map.mp hnone with ⟨start, hstart, horigin⟩
      rcases hlocated start hstart with ⟨location, hlocation, _⟩
      unfold origin? at horigin
      rw [hlocation] at horigin
      cases horigin
    · refine (pairwise_origins hscan htraced).imp_of_mem ?_
      intro left right hleft _ hlt heq
      rcases hlocated left hleft with ⟨location, hlocation, _⟩
      have hsome : origin? 0 left.1 = some _ := congrArg (Option.map _) hlocation
      exact Place.ne_of_lt (hlt _ hsome _ (heq ▸ hsome)) rfl
  have hfollow := mapped_follow Recorder.empty hlocated (Or.inl rfl) hdistinct
  have hempty : trackedStarts [] tree.pieces = [] <-> tree.tracked = [] := by
    rw [← map_fst_trackedStarts (htraced.regular tree List.mem_cons_self), List.map_eq_nil_iff]
  constructor
  · rw [mapped_finish]
    unfold recorderOf
    rw [← Place.after_nil .start, hfollow.left]
    simp only [mapped, Recorder.empty, List.filter_nil, List.append_nil, List.reverse_reverse]
  · unfold recorderOf
    rw [← Place.after_nil .start, hfollow.right]
    simp only [hempty]
    rfl

theorem decode?_encode_finish (hscan : Token.Scan .start source.toList tokens)
    (htraced : Traced file tokens [tree]) (hsource : source.length < Mapping.bound)
    (hcss : tree.render.length < Mapping.bound) :
    Mapping.decode? (Mapping.encode (recorderOf tree).finish) =
      some (recorderOf tree).finish := by
  have horderly : (recorderOf tree).Orderly (Place.start.after (chars tree.pieces)) :=
    (Recorder.Orderly.empty .start).follow
  have hholds : (recorderOf tree).Holds fun place =>
      place.line + place.column <= tree.render.length := by
    refine (Recorder.Holds.empty _).follow ?_
    intro front hfront
    have hlength := hfront.length_le
    rw [Node.chars_pieces, String.length_toList] at hlength
    have hafter := Place.line_add_column_after_le Place.start front
    change _ <= 0 + 0 + front.length at hafter
    show _ + _ <= tree.render.length
    omega
  refine Mapping.decode?_encode ?_ ?_
  · exact horderly.finish.imp fun h => Place.line_le_of_le h
  · intro mapping hmapping
    have hplace := hholds.finish hmapping
    refine ⟨by omega, by omega, ?_⟩
    intro original horiginal
    have hmapped : mapping ∈ mapped (recorderOf tree).finish := by
      refine List.mem_filter.mpr ⟨hmapping, ?_⟩
      rw [Mapping.isRangeEnd, show mapping.source = some original from horiginal]
      rfl
    rw [(recorderOf_spec hscan htraced).left] at hmapped
    rcases List.mem_map.mp hmapped with ⟨start, hstart, rfl⟩
    rcases comesFrom_of_mem htraced (mem_tracked_of_mem htraced hstart) with
      ⟨token, htoken, ⟨location, hlocation, _, hbegin⟩, _⟩
    rcases hscan.occurs htoken with ⟨front, back, htext, hfront⟩
    have horigin : origin? 0 start.1 = some original := horiginal
    unfold origin? at horigin
    rw [hlocation, Option.map_some, hbegin, hfront, Position.place_start_after] at horigin
    cases horigin
    have hlength := congrArg List.length htext
    rw [List.length_append, List.length_append, String.length_toList,
      String.length_toList] at hlength
    have hafter := Place.line_add_column_after_le Place.start front
    change _ <= 0 + 0 + front.length at hafter
    refine ⟨?_, ?_, ?_⟩
    · show 0 < Mapping.bound
      decide
    · show (Place.start.after front).line < _
      omega
    · show (Place.start.after front).column < _
      omega

end Parsed

theorem isFaithful_of_parse {file source : String} {tree : Node} {options : GenerateOptions}
    (hparse : parse source ⟨some file, true⟩ = .ok tree) (hoptions : options.sourceMap = true)
    (hsource : source.length < Mapping.bound)
    (hcss : (generate tree).length < Mapping.bound) :
    exists map, generateWith options tree = ⟨generate tree, some map⟩ ∧
      map.IsFaithful file source tree (generate tree) := by
  unfold parse at hparse
  split at hparse
  · cases hparse
  · rename_i tokens htokens
    have hscan := Token.scan_of_scanFrom htokens
    have htraced : Traced file tokens [tree] :=
      Sheet.traced_ofTokens (fun token htoken => hscan.isSpelled htoken) hparse
    rcases recorderOf_spec hscan htraced with ⟨hmapped, hsources⟩
    have hstarts := map_fst_trackedStarts (htraced.regular tree List.mem_cons_self)
    refine ⟨_, generateWith_eq hoptions tree, hsources, hstarts, (recorderOf tree).finish,
      decode?_encode_finish hscan htraced hsource hcss, ?_, ?_, ?_⟩
    · rw [hmapped, List.forall₂_map_left_iff, List.forall₂_same]
      intro start hstart
      exact mapsStart_ofStart hscan htraced hstart
    · have hapart := (apart_pieces (fun inner hinner =>
        (htraced.regular tree List.mem_cons_self inner hinner).leads) []).left
      rw [hmapped]
      refine List.pairwise_map.mpr (hapart.imp ?_)
      rintro left right ⟨more, hmore, heq⟩
      show Place.start.after left.2 < Place.start.after right.2
      rw [← heq, Place.after_append]
      exact Place.lt_after _ hmore
    · rw [hmapped]
      exact List.pairwise_map.mpr (pairwise_origins hscan htraced)

/-- Blanks are dropped, a selector stands in an argument, and a block is closed by the end. -/
theorem isFaithful_nested_selectors :
    exists tree map,
      parse "@media x \x7b\n a , b:is( c )\n \x7b d : e ;" ⟨some "a.css", true⟩ = .ok tree ∧
        generate tree = "@media x\x7ba,b:is(c)\x7bd:e\x7d\x7d" ∧
        generateWith ⟨true, none, none⟩ tree = ⟨generate tree, some map⟩ ∧
        map.IsFaithful "a.css" "@media x \x7b\n a , b:is( c )\n \x7b d : e ;" tree
          (generate tree) := by
  have hcss : (parse "@media x \x7b\n a , b:is( c )\n \x7b d : e ;" ⟨some "a.css", true⟩).toOption.map
      generate = some "@media x\x7ba,b:is(c)\x7bd:e\x7d\x7d" := by
    decide +kernel
  cases hparse : parse "@media x \x7b\n a , b:is( c )\n \x7b d : e ;" ⟨some "a.css", true⟩ with
  | error error =>
      rw [hparse] at hcss
      cases hcss
  | ok tree =>
      rw [hparse] at hcss
      have hgenerate : generate tree = "@media x\x7ba,b:is(c)\x7bd:e\x7d\x7d" := Option.some.inj hcss
      have hlength : (generate tree).length < Mapping.bound := by
        rw [hgenerate]
        decide
      have hoptions : GenerateOptions.sourceMap ⟨true, none, none⟩ = true := rfl
      rcases isFaithful_of_parse hparse hoptions (by decide) hlength with
        ⟨map, hmap, hfaithful⟩
      exact ⟨tree, map, rfl, hgenerate, hmap, hfaithful⟩

end Stylesheet
