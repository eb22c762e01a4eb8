import Stylesheet.Proofs.Command.Modes

/-!
# What a failed command leaves behind

A command stops at its first fault and takes nothing back that was written before.  Main
statement: a command that fails leaves every file as it was, except that a build with a map leaves
the map when the stylesheet beside it could not be written.
-/

namespace Stylesheet
namespace FileTree

variable {tree other : FileTree}

/-- The text of one file was written and nothing else is different. -/
structure DiffersAt (tree after : FileTree) (location : List String) (text : String) : Prop where
  home : after.home = tree.home
  folders : forall place, after.isFolder place = tree.isFolder place
  written : after.content? location = some (.text text)
  others : forall place, place ≠ location -> after.content? place = tree.content? place

/-- A path that names a file leads to it for writing. -/
theorem Names.target {path : String} {front : List String} {name : String} {folder : List String}
    (h : tree.Names path front name folder) : tree.target path = .ok (folder ++ [name]) := by
  have hname : (name == "") = false := by
    rw [beq_eq_false_iff_ne]
    rintro rfl
    have hidle := h.isName
    cases hidle
  have hwhole : Path.withoutEnd (front ++ [name]) = front ++ [name] := by
    simp [Path.withoutEnd, hname]
  have hlast : (front ++ [name]).getLast? ≠ some "" := by
    rw [List.getLast?_concat]
    intro heq
    rw [Option.some.inj heq] at hname
    cases hname
  have hends : ¬ (decide ((front ++ [name]).getLast? = some "") || !Path.isName name) = true := by
    rw [h.isName, decide_eq_false hlast]
    exact Bool.false_ne_true
  unfold FileTree.target
  simp only [h.segments, bind, Except.bind, hwhole, List.getLast?_concat, List.dropLast_concat,
    h.walk, requireFolder_eq_ok.mpr h.isFolder, pure, Except.pure, h.free]
  rw [List.getLast?_concat] at hends
  rw [if_neg hends]
  simp only [if_neg (Nat.not_lt.mpr h.size), if_neg Bool.false_ne_true]

/-- Writing one file changes the tree at the location to which its path leads. -/
theorem differsAt_of_write {path text : String} {after : FileTree}
    (h : tree.write path text = .ok after) :
    exists location, tree.target path = .ok location ∧ tree.DiffersAt after location text := by
  rcases insert_of_write h with ⟨front, name, folder, hnames, rfl⟩
  exact ⟨folder ++ [name], hnames.target,
    { home := rfl
      folders := isFolder_insert hnames.isFolder _
      written := content?_insert_self ..
      others := fun _ hne => content?_insert_of_ne hne tree _ }⟩

/-- A file that was written opens no path and closes none. -/
theorem DiffersAt.target_eq_ok {location : List String} {text : String}
    (h : tree.DiffersAt other location text) {path : String} {place : List String}
    (htarget : tree.target path = .ok place) : other.target path = .ok place := by
  rcases names_of_target htarget with ⟨front, name, folder, hnames, rfl⟩
  exact (hnames.of_isFolder_eq h.home h.folders).target

/-- A path that leads nowhere after a file was written did not lead anywhere before. -/
theorem DiffersAt.target_eq_error {location : List String} {text : String}
    (h : tree.DiffersAt other location text) {path written : String} {fault : FileFault}
    (hwrite : other.write path written = .error fault) :
    exists before, tree.target path = .error before := by
  cases htarget : tree.target path with
  | error before => exact ⟨before, rfl⟩
  | ok place =>
      rw [write, h.target_eq_ok htarget] at hwrite
      cases hwrite

end FileTree

namespace Command

variable {tree after : FileTree} {command : Command} {fault : CommandFault}

/-! ## Commands that write nothing -/

theorem result_printTree (tree : FileTree) (path : String) (positions : Bool) :
    result (perform FileTree.access (.ast path positions)) tree =
      ((sheet tree path positions).map fun node => .print ((Plain.encode node).pretty ++ "\n"),
        tree) := by
  rw [perform, printTree, result_bind, result_parseFile]
  cases sheet tree path positions <;> rfl

/-- A command that does not build to a file leaves the tree as it was. -/
theorem result_snd_of_reads (tree : FileTree)
    (h : forall path output sourceMap sourceRoot,
      command ≠ .build path (some output) sourceMap sourceRoot) :
    (result (command.perform FileTree.access) tree).2 = tree := by
  cases command with
  | build path output sourceMap sourceRoot =>
      cases output with
      | none => exact congrArg Prod.snd (result_buildToOutput tree path)
      | some output => exact absurd rfl (h path output sourceMap sourceRoot)
  | check path => exact congrArg Prod.snd (result_check tree path)
  | ast path positions => exact congrArg Prod.snd (result_printTree tree path positions)
  | version => rfl
  | help topic => cases topic <;> rfl
  | helpOnHelp => rfl

/-! ## Builds to a file -/

/--
A build wrote its map and then not the stylesheet, since the path of the stylesheet leads to no
file.  The map is the only difference.
-/
structure LeavesMap (tree after : FileTree) (command : Command) (fault : CommandFault)
    (output : String) : Prop where
  refused : exists before, tree.target output = .error before
  reported : exists behind, fault = .unwritable output behind
  map : exists path sourceRoot node map location,
    command = .build path (some output) true sourceRoot ∧
      sheet tree path true = .ok node ∧
      (generateWith ⟨true, some (Path.fileName output), sourceRoot⟩ node).map = some map ∧
      tree.target (output ++ ".map") = .ok location ∧
      tree.DiffersAt after location map.text

theorem eq_of_fault_writeSheet {output text : String}
    (h : result (writeSheet output text) tree = (.error fault, after)) :
    after = tree ∧ exists behind, fault = .unwritable output behind ∧
      tree.write output text = .error behind := by
  rw [result_writeSheet] at h
  cases hwrite : tree.write output text with
  | ok written =>
      rw [hwrite] at h
      cases h
  | error behind =>
      rw [hwrite] at h
      cases h
      exact ⟨rfl, behind, rfl, rfl⟩

theorem eq_of_fault_plain {path output : String} {sourceRoot : Option String}
    (h : result (buildToFile FileTree.access path output false sourceRoot) tree =
      (.error fault, after)) : after = tree := by
  rw [result_buildToFile_plain] at h
  cases hsheet : sheet tree path false with
  | error =>
      rw [hsheet] at h
      cases h
      rfl
  | ok node =>
      rw [hsheet] at h
      exact (eq_of_fault_writeSheet h).left

theorem leavesMap_of_fault_mapped {path output : String} {sourceRoot : Option String}
    (h : result (buildToFile FileTree.access path output true sourceRoot) tree =
      (.error fault, after)) :
    after = tree ∨
      LeavesMap tree after (.build path (some output) true sourceRoot) fault output := by
  rw [result_buildToFile_mapped] at h
  cases hsheet : sheet tree path true with
  | error =>
      rw [hsheet] at h
      cases h
      exact Or.inl rfl
  | ok node =>
      rcases map_generateWith_mapped (some (Path.fileName output)) sourceRoot node with
        ⟨map, hmap⟩
      simp only [hsheet, hmap, Option.map_some, Option.getD_some] at h
      cases hbetween : tree.write (mapPath output) map.text with
      | error =>
          rw [hbetween] at h
          cases h
          exact Or.inl rfl
      | ok between =>
          rw [hbetween] at h
          rcases eq_of_fault_writeSheet h with ⟨rfl, behind, rfl, hwrite⟩
          rcases FileTree.differsAt_of_write hbetween with ⟨location, htarget, hdiffers⟩
          exact Or.inr
            { refused := hdiffers.target_eq_error hwrite
              reported := ⟨behind, rfl⟩
              map := ⟨path, sourceRoot, node, map, location, rfl, hsheet, hmap, htarget,
                hdiffers⟩ }

/-! ## Exit codes -/

/-- A command that is not stopped succeeds. -/
def Succeeds (tree : FileTree) (step : Step Outcome) : Prop :=
  forall outcome, (result step tree).1 = .ok outcome -> outcome.exit = 0

theorem succeeds_of_map {step : Step Outcome} {node : Except CommandFault Node}
    {outcomeOf : Node -> Outcome} (h : result step tree = (node.map outcomeOf, tree))
    (hexit : forall node, (outcomeOf node).exit = 0) : Succeeds tree step := by
  intro outcome hok
  rw [h] at hok
  cases node with
  | error => cases hok
  | ok node =>
      cases hok
      exact hexit node

theorem succeeds_writeSheet (tree : FileTree) (output text : String) :
    Succeeds tree (writeSheet output text) := by
  intro outcome hok
  rw [result_writeSheet] at hok
  cases hwrite : tree.write output text with
  | error =>
      rw [hwrite] at hok
      cases hok
  | ok =>
      rw [hwrite] at hok
      cases hok
      rfl

theorem succeeds_buildToFile (path output : String) (sourceMap : Bool)
    (sourceRoot : Option String) :
    Succeeds tree (buildToFile FileTree.access path output sourceMap sourceRoot) := by
  intro outcome hok
  cases sourceMap with
  | false =>
      rw [result_buildToFile_plain] at hok
      cases hsheet : sheet tree path false with
      | error =>
          rw [hsheet] at hok
          cases hok
      | ok node =>
          rw [hsheet] at hok
          exact succeeds_writeSheet tree output _ outcome hok
  | true =>
      rw [result_buildToFile_mapped] at hok
      cases hsheet : sheet tree path true with
      | error =>
          rw [hsheet] at hok
          cases hok
      | ok node =>
          simp only [hsheet] at hok
          split at hok
          · exact succeeds_writeSheet _ output _ outcome hok
          · cases hok

theorem succeeds_perform (tree : FileTree) (command : Command) :
    Succeeds tree (command.perform FileTree.access) := by
  cases command with
  | build path output sourceMap sourceRoot =>
      cases output with
      | none => exact succeeds_of_map (result_buildToOutput tree path) fun _ => rfl
      | some output => exact succeeds_buildToFile path output sourceMap sourceRoot
  | check path => exact succeeds_of_map (result_check tree path) fun _ => rfl
  | ast path positions => exact succeeds_of_map (result_printTree tree path positions) fun _ => rfl
  | version =>
      rintro _ ⟨⟩
      rfl
  | help topic =>
      cases topic with
      | none =>
          rintro _ ⟨⟩
          rfl
      | some verb =>
          rintro _ ⟨⟩
          rfl
  | helpOnHelp =>
      rintro _ ⟨⟩
      rfl

theorem exists_fault_of_exit (h : (runIn tree command).1.exit = 1) :
    exists fault, result (command.perform FileTree.access) tree =
      (.error fault, (runIn tree command).2) := by
  rw [runIn_eq] at h ⊢
  cases hresult : (result (command.perform FileTree.access) tree).1 with
  | error fault => exact ⟨fault, Prod.ext hresult rfl⟩
  | ok outcome =>
      rw [hresult] at h
      have hzero := succeeds_perform tree command outcome hresult
      exact absurd (hzero.symm.trans h) Nat.zero_ne_one

/-! ## Failures -/

theorem leaves_of_fault
    (h : result (command.perform FileTree.access) tree = (.error fault, after)) :
    after = tree ∨ exists output, LeavesMap tree after command fault output := by
  by_cases hbuild : exists path output sourceMap sourceRoot,
      command = .build path (some output) sourceMap sourceRoot
  · rcases hbuild with ⟨path, output, sourceMap, sourceRoot, rfl⟩
    cases sourceMap with
    | false => exact Or.inl (eq_of_fault_plain h)
    | true => exact (leavesMap_of_fault_mapped h).imp_right fun hmap => ⟨output, hmap⟩
  · have hsame : (result (command.perform FileTree.access) tree).2 = tree := by
      refine result_snd_of_reads tree ?_
      intro path output sourceMap sourceRoot heq
      exact hbuild ⟨path, output, sourceMap, sourceRoot, heq⟩
    rw [h] at hsame
    exact Or.inl hsame

/--
A command line that fails leaves the tree as it was, or only a map beside a stylesheet that could
not be written.
-/
theorem leaves_of_exit {words : List String} {outcome : Outcome}
    (hrun : (ofArguments? words).map (runIn tree) = some (outcome, after))
    (hexit : outcome.exit = 1) :
    after = tree ∨
      exists command fault output, ofArguments? words = some command ∧ outcome = .fail fault ∧
        LeavesMap tree after command fault output := by
  rcases Option.map_eq_some_iff.mp hrun with ⟨command, hcommand, hrun⟩
  have hfailed : (runIn tree command).1.exit = 1 := by
    rw [hrun]
    exact hexit
  rcases exists_fault_of_exit hfailed with ⟨fault, hfault⟩
  have houtcome : outcome = .fail fault := by
    rw [runIn_eq, hfault] at hrun
    exact (congrArg Prod.fst hrun).symm
  rw [hrun] at hfault
  rcases leaves_of_fault hfault with hsame | ⟨output, hmap⟩
  · exact Or.inl hsame
  · exact Or.inr ⟨command, fault, output, hcommand, houtcome, hmap⟩

/-- The output is a folder, so that only the map beside the folder is written. -/
theorem leaves_of_exit_folder : exists outcome after,
    (ofArguments? ["build", "a.css", "-o", "out", "--source-map"]).map (runIn oneSheet) =
        some (outcome, after) ∧
      outcome.exit = 1 ∧
      (after = oneSheet ∨
        exists command fault output,
          ofArguments? ["build", "a.css", "-o", "out", "--source-map"] = some command ∧
            outcome = .fail fault ∧ LeavesMap oneSheet after command fault output) := by
  have hrun : (ofArguments? ["build", "a.css", "-o", "out", "--source-map"]).map
      (runIn oneSheet) = some (runIn oneSheet (buildMapped "a.css" "out")) := rfl
  have hexit : (runIn oneSheet (buildMapped "a.css" "out")).1.exit = 1 := by
    decide +kernel
  exact ⟨_, _, hrun, hexit, leaves_of_exit hrun hexit⟩

/-- A build that fails may have made a file. -/
theorem exists_file_of_failed_build : exists words tree outcome after location,
    (ofArguments? ("build" :: words)).map (runIn tree) = some (outcome, after) ∧
      outcome.exit = 1 ∧ tree.content? location = none ∧ after.content? location ≠ none := by
  have hrun : (ofArguments? ["build", "a.css", "-o", "out", "--source-map"]).map
      (runIn oneSheet) = some (runIn oneSheet (buildMapped "a.css" "out")) := rfl
  refine ⟨["a.css", "-o", "out", "--source-map"], oneSheet, _, _, ["out.map"], hrun, ?_, ?_, ?_⟩
  · decide +kernel
  · decide +kernel
  · decide +kernel

end Command
end Stylesheet
