import Stylesheet.Command.Arguments
import Stylesheet.Proofs.Command.Files
import Stylesheet.Proofs.Command.Steps
import Stylesheet.Proofs.Text.Split
import Stylesheet.Proofs.Token.Scan

/-!
# The ways to build a stylesheet

A stylesheet is built to the standard output, to a file, or to a file with a map beside it.
Main statement: the three ways, and a check, fail together and with the same report, and otherwise
give the same text, to which the last adds one comment that names the map.
-/

namespace Stylesheet

/-! ## The path of a map -/

namespace Path

theorem toList_mapSuffix : '/' ∉ ".map".toList := by
  decide

/-- A map stands in the folder of its stylesheet, under a longer name. -/
theorem segments_mapPath {output name : String} {front : List String}
    (h : segments output = front ++ [name]) :
    segments (Command.mapPath output) = front ++ [name ++ ".map"] := by
  rcases splitText_append_last toList_mapSuffix output.toList with ⟨parts, last, hparts, hmore⟩
  unfold segments at h ⊢
  rw [hparts, List.map_append] at h
  rcases List.append_inj' h rfl with ⟨rfl, hlast⟩
  rw [List.map_singleton, List.singleton_inj] at hlast
  subst hlast
  rw [Command.mapPath, String.toList_append, hmore, List.map_append, List.map_singleton,
    String.ofList_append, String.ofList_toList]

theorem not_mem_of_mem_segments {path segment : String} (h : segment ∈ segments path) :
    '/' ∉ segment.toList := by
  rcases List.mem_map.mp h with ⟨part, hpart, rfl⟩
  rw [String.toList_ofList]
  exact not_mem_of_mem_splitText hpart

theorem fileName_of_segments {path name : String} {front : List String}
    (h : segments path = front ++ [name]) (hname : isName name = true) : fileName path = name := by
  have hidle : isIdle name = false := by
    unfold isName at hname
    cases hidle : isIdle name with
    | false => rfl
    | true =>
        rw [hidle] at hname
        cases hname
  have hlast : ((segments path).filter fun segment => !isIdle segment).getLast? = some name := by
    rw [h, List.filter_append, List.filter_cons_of_pos (by rw [hidle]; rfl), List.filter_nil,
      List.getLast?_concat]
  rw [fileName, hlast]
  exact if_pos hname

theorem isName_append_map (name : String) : isName (name ++ ".map") = true := by
  have hlength : (name ++ ".map").length = name.length + 4 := by
    rw [String.length_append]
    rfl
  have hne : forall short : String, short.length < 4 -> (name ++ ".map" == short) = false := by
    intro short hshort
    rw [beq_eq_false_iff_ne]
    rintro rfl
    omega
  rw [isName, isIdle, bne, hne "" (by decide), hne "." (by decide), hne ".." (by decide)]
  rfl

end Path

/-! ## The comment behind a stylesheet -/

namespace Lexeme

/-- A content without slashes ends where its comment ends. -/
theorem splitComment?_of_not_mem {content : List Char} (h : '/' ∉ content) (rest : List Char) :
    splitComment? (content ++ '*' :: '/' :: rest) = some (content, rest) := by
  induction content with
  | nil => rfl
  | cons c more ih =>
      rw [List.mem_cons, not_or] at h
      have hmore := ih h.right
      have hslash : forall behind, more ++ '*' :: '/' :: rest ≠ '/' :: behind := by
        intro behind heq
        cases more with
        | nil => exact absurd (List.cons.inj heq).left (by decide)
        | cons d more => exact h.right (List.mem_cons.mpr (Or.inl (List.cons.inj heq).left.symm))
      rw [List.cons_append, splitComment?, hmore, Option.map_some]
      exact fun behind _ heq => hslash behind heq

theorem read_comment_of_not_mem {content : List Char} (h : '/' ∉ content) (rest : List Char) :
    read '/' ('*' :: (content ++ '*' :: '/' :: rest)) =
      .ok ⟨.comment (String.ofList content), '/' :: '*' :: content ++ ['*', '/'], rest⟩ := by
  have hsplit := splitComment?_of_not_mem h rest
  simp [read, Character.isSpace, List.isPrefixOf, hsplit]

end Lexeme

/-- A text that is one comment and one line feed. -/
def IsCommentLine (text : String) : Prop :=
  exists content body start stop, tokenize text =
    .ok [⟨.comment content, body, .start⟩, ⟨.whitespace, "\n", start⟩, ⟨.eof, "", stop⟩]

theorem isCommentLine_of_toList {text : String} {content : List Char} (hcontent : '/' ∉ content)
    (htext : text.toList = '/' :: '*' :: (content ++ '*' :: '/' :: ['\n'])) :
    IsCommentLine text := by
  have hread := Lexeme.read_comment_of_not_mem hcontent ['\n']
  generalize '/' :: '*' :: content ++ ['*', '/'] = body at hread
  have hbreak : Lexeme.read '\n' [] = .ok ⟨.whitespace, ['\n'], []⟩ := rfl
  have hline : forall start, Token.Scan start ['\n']
      [⟨.whitespace, "\n", start⟩, ⟨.eof, "", start.after ['\n']⟩] :=
    fun start => Token.Scan.step hbreak (Token.Scan.done (start.after ['\n']))
  have hscan := Token.Scan.step hread (hline (Position.start.after body))
  unfold IsCommentLine
  rw [tokenize, htext]
  exact ⟨_, _, _, _, Token.scanFrom_of_scan hscan⟩

theorem isCommentLine_around {opening closing line : String} {front back : List Char}
    (hopening : opening.toList = '/' :: '*' :: front)
    (hclosing : closing.toList = back ++ ['*', '/']) (hline : line.toList = ['\n'])
    {url : String} (h : '/' ∉ front ++ url.toList ++ back) :
    IsCommentLine (opening ++ url ++ closing ++ line) := by
  refine isCommentLine_of_toList h ?_
  simp only [String.toList_append, hopening, hclosing, hline, List.cons_append,
    List.append_assoc, List.nil_append]

theorem isCommentLine_comment {url : String} (h : '/' ∉ url.toList) :
    IsCommentLine (SourceMap.comment url ++ "\n") := by
  have hopening : "/*# sourceMappingURL=".toList = '/' :: '*' :: "# sourceMappingURL=".toList :=
    rfl
  have hclosing : " */".toList = [' '] ++ ['*', '/'] := rfl
  have hfront : '/' ∉ "# sourceMappingURL=".toList := by decide
  have hback : '/' ∉ [' '] := by decide
  refine isCommentLine_around hopening hclosing rfl ?_
  simp only [List.mem_append, not_or]
  exact ⟨⟨hfront, h⟩, hback⟩

/-! ## Agreement -/

namespace Command

/-- The command that prints the stylesheet of a path. -/
def buildPrinted (path : String) : Command :=
  .build path none false none

/-- The command that writes the stylesheet of a path to a file. -/
def buildWritten (path output : String) : Command :=
  .build path (some output) false none

/-- The command that writes the stylesheet of a path to a file and its map beside it. -/
def buildMapped (path output : String) : Command :=
  .build path (some output) true none

/-- A command is not stopped by a file that cannot be written. -/
def WritesSucceed (tree : FileTree) (command : Command) : Prop :=
  forall path fault,
    (result (command.perform FileTree.access) tree).1 ≠ .error (.unwritable path fault)

/-- How the commands on a path agree, each run in the same tree. -/
structure ModesAgree (tree : FileTree) (path output : String) : Prop where
  words : Word.ofText path = .value path -> Word.ofText output = .value output ->
    ofArguments? ["build", path] = some (buildPrinted path) ∧
      ofArguments? ["build", path, "-o", output] = some (buildWritten path output) ∧
      ofArguments? ["build", path, "-o", output, "--source-map"] =
        some (buildMapped path output) ∧
      ofArguments? ["check", path] = some (.check path)
  exit : (runIn tree (buildWritten path output)).1.exit = (runIn tree (buildPrinted path)).1.exit ∧
    (runIn tree (buildMapped path output)).1.exit = (runIn tree (buildPrinted path)).1.exit
  check : (runIn tree (.check path)).1.exit = 0 <-> (runIn tree (buildPrinted path)).1.exit = 0
  reported : (runIn tree (buildPrinted path)).1.exit ≠ 0 ->
    (runIn tree (buildWritten path output)).1.reported =
        (runIn tree (buildPrinted path)).1.reported ∧
      (runIn tree (buildMapped path output)).1.reported =
        (runIn tree (buildPrinted path)).1.reported
  written : (runIn tree (buildPrinted path)).1.exit = 0 ->
    (runIn tree (buildWritten path output)).2.read output =
      .ok (runIn tree (buildPrinted path)).1.printed
  mapped : (runIn tree (buildPrinted path)).1.exit = 0 ->
    exists trailer, IsCommentLine trailer ∧
      (runIn tree (buildMapped path output)).2.read output =
        .ok ((runIn tree (buildPrinted path)).1.printed ++ trailer)
  map : (runIn tree (buildPrinted path)).1.exit = 0 ->
    exists source located name map, tree.read path = .ok source ∧
      Stylesheet.parse source ⟨some path, true⟩ = .ok located ∧
      (Path.segments output).getLast? = some name ∧
      (generateWith ⟨true, some name, none⟩ located).map = some map ∧
      (runIn tree (buildMapped path output)).2.read (output ++ ".map") = .ok map.text

section Words

variable {path output : String} (words : List String)

theorem foldlM_path (verb : Verb) (hpath : Word.ofText path = .value path) :
    (path :: words).foldlM (Reading.step verb) .initial =
      words.foldlM (Reading.step verb) ⟨some path, [], none, false⟩ := by
  have hstep : Reading.step verb .initial path = .ok ⟨some path, [], none, false⟩ := by
    simp only [Reading.step, Reading.initial, hpath, if_neg Bool.false_ne_true]
    rfl
  rw [List.foldlM_cons, hstep]
  rfl

theorem foldlM_output (houtput : Word.ofText output = .value output) :
    ("-o" :: output :: words).foldlM (Reading.step .build) ⟨some path, [], none, false⟩ =
      words.foldlM (Reading.step .build) ⟨some path, [(.output, output)], none, false⟩ := by
  have hoption : Reading.step .build ⟨some path, [], none, false⟩ "-o" =
      .ok ⟨some path, [], some .output, false⟩ := rfl
  have hvalue : Reading.step .build ⟨some path, [], some .output, false⟩ output =
      .ok ⟨some path, [(.output, output)], none, false⟩ := by
    simp only [Reading.step, houtput, if_neg Bool.false_ne_true]
    rfl
  rw [List.foldlM_cons, hoption]
  change List.foldlM (Reading.step .build) _ (output :: words) = _
  rw [List.foldlM_cons, hvalue]
  rfl

end Words

theorem ofArguments?_modes {path output : String} (hpath : Word.ofText path = .value path)
    (houtput : Word.ofText output = .value output) :
    ofArguments? ["build", path] = some (buildPrinted path) ∧
      ofArguments? ["build", path, "-o", output] = some (buildWritten path output) ∧
      ofArguments? ["build", path, "-o", output, "--source-map"] =
        some (buildMapped path output) ∧
      ofArguments? ["check", path] = some (.check path) := by
  have hbuild : forall words, ofArguments? ("build" :: words) = ofWords? .build words :=
    fun _ => rfl
  have hcheck : forall words, ofArguments? ("check" :: words) = ofWords? .check words :=
    fun _ => rfl
  refine ⟨?_, ?_, ?_, ?_⟩
  · rw [hbuild, ofWords?, foldlM_path _ _ hpath]
    rfl
  · rw [hbuild, ofWords?, foldlM_path _ _ hpath, foldlM_output _ houtput]
    rfl
  · rw [hbuild, ofWords?, foldlM_path _ _ hpath, foldlM_output _ houtput]
    rfl
  · rw [hcheck, ofWords?, foldlM_path _ _ hpath]
    rfl

/-! ### Failures -/

variable {tree : FileTree} {path output : String}

theorem runIn_of_result {command : Command} {outcome : Except CommandFault Outcome}
    {after : FileTree} (h : result (command.perform FileTree.access) tree = (outcome, after)) :
    runIn tree command = (.ofExcept outcome, after) := by
  rw [runIn_eq, h]

/-- A command that succeeds was not stopped. -/
theorem writesSucceed_of_exit {command : Command} (h : (runIn tree command).1.exit = 0) :
    WritesSucceed tree command := by
  intro path fault hfault
  rw [runIn_eq, hfault] at h
  cases h

section Failure

variable {fault : CommandFault} {positions : Bool} (h : sheet tree path positions = .error fault)

include h

theorem sheet_eq_error (positions' : Bool) : sheet tree path positions' = .error fault := by
  have hboth := map_erase_sheet tree path positions' positions
  rw [h] at hboth
  cases hsheet : sheet tree path positions' with
  | ok node =>
      rw [hsheet] at hboth
      cases hboth
  | error other =>
      rw [hsheet] at hboth
      cases hboth
      rfl

theorem runIn_buildPrinted_error : runIn tree (buildPrinted path) = (.fail fault, tree) := by
  have hresult : result (perform FileTree.access (buildPrinted path)) tree =
      (.error fault, tree) := by
    rw [buildPrinted, perform, result_buildToOutput, sheet_eq_error h]
    rfl
  exact runIn_of_result hresult

theorem runIn_buildWritten_error (output : String) :
    runIn tree (buildWritten path output) = (.fail fault, tree) := by
  have hresult : result (perform FileTree.access (buildWritten path output)) tree =
      (.error fault, tree) := by
    rw [buildWritten, perform, result_buildToFile_plain, sheet_eq_error h]
  exact runIn_of_result hresult

theorem runIn_buildMapped_error (output : String) :
    runIn tree (buildMapped path output) = (.fail fault, tree) := by
  have hresult : result (perform FileTree.access (buildMapped path output)) tree =
      (.error fault, tree) := by
    rw [buildMapped, perform, result_buildToFile_mapped, sheet_eq_error h]
  exact runIn_of_result hresult

theorem runIn_check_error : runIn tree (.check path) = (.fail fault, tree) := by
  have hresult : result (perform FileTree.access (.check path)) tree = (.error fault, tree) := by
    rw [result_check, sheet_eq_error h]
    rfl
  exact runIn_of_result hresult

end Failure

/-! ### Successes -/

section Success

variable {node located : Node}

theorem sheet_eq_ok {positions : Bool} (h : sheet tree path positions = .ok node) :
    exists source, tree.read path = .ok source ∧
      Stylesheet.parse source ⟨some path, positions⟩ = .ok node := by
  unfold sheet at h
  split at h
  · cases h
  · rename_i source hsource
    refine ⟨source, hsource, ?_⟩
    cases hparse : Stylesheet.parse source ⟨some path, positions⟩ with
    | ok parsed =>
        rw [hparse] at h
        cases h
        rfl
    | error error =>
        rw [hparse] at h
        cases h

/-- The located tree of a path generates the same text. -/
theorem exists_located (h : sheet tree path false = .ok node) :
    exists located, sheet tree path true = .ok located ∧ generate located = generate node := by
  have hboth := map_erase_sheet tree path true false
  rw [h] at hboth
  cases hsheet : sheet tree path true with
  | error fault =>
      rw [hsheet] at hboth
      cases hboth
  | ok located =>
      rw [hsheet] at hboth
      have herase : located.erase = node.erase := Except.ok.inj hboth
      refine ⟨located, rfl, ?_⟩
      rw [generate, generate, ← Node.render_erase located, ← Node.render_erase node, herase]

theorem runIn_buildPrinted_ok (h : sheet tree path false = .ok node) :
    runIn tree (buildPrinted path) = (.print (generate node ++ "\n"), tree) := by
  have hresult : result (perform FileTree.access (buildPrinted path)) tree =
      (.ok (.print (generate node ++ "\n")), tree) := by
    rw [buildPrinted, perform, result_buildToOutput, h]
    rfl
  exact runIn_of_result hresult

theorem runIn_check_ok (h : sheet tree path false = .ok node) :
    runIn tree (.check path) = (.report ("OK: " ++ path), tree) := by
  have hresult : result (perform FileTree.access (.check path)) tree =
      (.ok (.report ("OK: " ++ path)), tree) := by
    rw [result_check, h]
    rfl
  exact runIn_of_result hresult

theorem runIn_buildWritten_ok (h : sheet tree path false = .ok node)
    (hwrites : WritesSucceed tree (buildWritten path output)) :
    exists written, tree.write output (generate node ++ "\n") = .ok written ∧
      runIn tree (buildWritten path output) = (.report ("Built: " ++ output), written) := by
  have hresult : result (perform FileTree.access (buildWritten path output)) tree =
      result (writeSheet output (generate node ++ "\n")) tree := by
    rw [buildWritten, perform, result_buildToFile_plain, h]
  rw [result_writeSheet] at hresult
  cases hwrite : tree.write output (generate node ++ "\n") with
  | error fault =>
      rw [hwrite] at hresult
      exact absurd (congrArg Prod.fst hresult) (hwrites output fault)
  | ok written =>
      rw [hwrite] at hresult
      exact ⟨written, rfl, runIn_of_result hresult⟩

theorem runIn_buildMapped_ok (h : sheet tree path true = .ok located)
    (hwrites : WritesSucceed tree (buildMapped path output)) :
    exists map between written,
      (generateWith ⟨true, some (Path.fileName output), none⟩ located).map = some map ∧
        tree.write (mapPath output) map.text = .ok between ∧
          between.write output (generate located ++ trailer output true) = .ok written ∧
            runIn tree (buildMapped path output) = (.report ("Built: " ++ output), written) := by
  rcases map_generateWith_mapped (some (Path.fileName output)) none located with ⟨map, hmap⟩
  have hresult : result (perform FileTree.access (buildMapped path output)) tree = _ :=
    result_buildToFile_mapped tree path output none
  simp only [h, hmap, Option.map_some, Option.getD_some] at hresult
  cases hbetween : tree.write (mapPath output) map.text with
  | error fault =>
      rw [hbetween] at hresult
      exact absurd (congrArg Prod.fst hresult) (hwrites (mapPath output) fault)
  | ok between =>
      simp only [hbetween] at hresult
      rw [result_writeSheet] at hresult
      cases hwrite : between.write output (generate located ++ trailer output true) with
      | error fault =>
          rw [hwrite] at hresult
          exact absurd (congrArg Prod.fst hresult) (hwrites output fault)
      | ok written =>
          rw [hwrite] at hresult
          exact ⟨map, between, written, hmap, hbetween, hwrite, runIn_of_result hresult⟩

/-- What stands behind a stylesheet with a map, after its line feed. -/
theorem exists_trailer {name : String} {front : List String}
    (h : Path.segments output = front ++ [name]) :
    exists line, IsCommentLine line ∧ trailer output true = "\n" ++ line := by
  have hsegments := Path.segments_mapPath h
  have hname := Path.fileName_of_segments hsegments (Path.isName_append_map name)
  have hslash : '/' ∉ (name ++ ".map").toList := by
    have hmem : name ++ ".map" ∈ Path.segments (mapPath output) := by
      rw [hsegments]
      exact List.mem_append_right _ List.mem_cons_self
    exact Path.not_mem_of_mem_segments hmem
  refine ⟨_, isCommentLine_comment hslash, ?_⟩
  rw [trailer, if_pos rfl, hname, String.append_assoc]

end Success

/-! ### Together -/

theorem modesAgree_of_error {fault : CommandFault} (h : sheet tree path false = .error fault) :
    ModesAgree tree path output := by
  have hprinted := runIn_buildPrinted_error h
  have hwritten := runIn_buildWritten_error h output
  have hmapped := runIn_buildMapped_error h output
  have hcheck := runIn_check_error h
  have hfailed : (runIn tree (buildPrinted path)).1.exit ≠ 0 := by
    rw [hprinted]
    exact Nat.one_ne_zero
  exact {
    words := ofArguments?_modes
    exit := by rw [hprinted, hwritten, hmapped]; exact ⟨rfl, rfl⟩
    check := by rw [hprinted, hcheck]
    reported := fun _ => by rw [hprinted, hwritten, hmapped]; exact ⟨rfl, rfl⟩
    written := fun h => absurd h hfailed
    mapped := fun h => absurd h hfailed
    map := fun h => absurd h hfailed }

theorem modesAgree_of_ok {node : Node} (h : sheet tree path false = .ok node)
    (hplain : WritesSucceed tree (buildWritten path output))
    (hmap : WritesSucceed tree (buildMapped path output)) : ModesAgree tree path output := by
  rcases exists_located h with ⟨located, hlocated, htext⟩
  rcases sheet_eq_ok hlocated with ⟨source, hsource, hparse⟩
  rcases runIn_buildWritten_ok h hplain with ⟨written, hwrite, hwritten⟩
  rcases runIn_buildMapped_ok hlocated hmap with
    ⟨map, between, mapped, hgenerate, hbetween, hbehind, hmapped⟩
  rcases FileTree.insert_of_write hwrite with ⟨front, name, folder, hnames, -⟩
  have hsegments := FileTree.segments_eq hnames.segments
  have hname := Path.fileName_of_segments hsegments hnames.isName
  have hprinted := runIn_buildPrinted_ok h
  have hcheck := runIn_check_ok h
  have hlast : (Path.segments (mapPath output)).getLast? ≠ (Path.segments output).getLast? := by
    rw [Path.segments_mapPath hsegments, hsegments, List.getLast?_concat, List.getLast?_concat]
    intro heq
    have hlength := congrArg String.length (Option.some.inj heq)
    rw [String.length_append] at hlength
    exact absurd hlength (Nat.ne_of_gt (Nat.lt_add_of_pos_right (by decide)))
  exact {
    words := ofArguments?_modes
    exit := by rw [hprinted, hwritten, hmapped]; exact ⟨rfl, rfl⟩
    check := by rw [hprinted, hcheck]; exact Iff.rfl
    reported := by rw [hprinted]; exact fun h => absurd rfl h
    written := fun _ => by rw [hprinted, hwritten]; exact FileTree.read_write hwrite
    mapped := fun _ => by
      rcases exists_trailer hsegments with ⟨line, hline, htrailer⟩
      refine ⟨line, hline, ?_⟩
      rw [hprinted, hmapped, FileTree.read_write hbehind, htext, htrailer]
      exact congrArg Except.ok (String.append_assoc ..).symm
    map := fun _ => by
      refine ⟨source, located, name, map, hsource, hparse, ?_, ?_, ?_⟩
      · rw [hsegments, List.getLast?_concat]
      · rw [← hname]
        exact hgenerate
      · rw [hmapped]
        exact FileTree.read_write_write hbetween hbehind hlast }

/--
However a stylesheet is built, the command succeeds or fails alike, with the same report, and the
files hold the text that would have been printed.
-/
theorem modesAgree (hplain : WritesSucceed tree (buildWritten path output))
    (hmap : WritesSucceed tree (buildMapped path output)) : ModesAgree tree path output := by
  cases h : sheet tree path false with
  | error fault => exact modesAgree_of_error h
  | ok node => exact modesAgree_of_ok h hplain hmap

/-- A folder with one stylesheet and one folder for what is made of it. -/
def oneSheet : FileTree :=
  ⟨[["out"]], [(["a.css"], .text "a { color: red }")], []⟩

theorem modesAgree_oneSheet :
    (runIn oneSheet (buildMapped "a.css" "out/b.css")).1.exit = 0 ∧
      ModesAgree oneSheet "a.css" "out/b.css" := by
  have hplain : (runIn oneSheet (buildWritten "a.css" "out/b.css")).1.exit = 0 := by
    decide +kernel
  have hmap : (runIn oneSheet (buildMapped "a.css" "out/b.css")).1.exit = 0 := by
    decide +kernel
  exact ⟨hmap, modesAgree (writesSucceed_of_exit hplain) (writesSucceed_of_exit hmap)⟩

end Command
end Stylesheet
