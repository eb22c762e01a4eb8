import Stylesheet.Command.Run
import Stylesheet.Proofs.Unlocated

/-!
# Commands step by step

A command in a file tree is a row of steps, each of which gives a result or a fault and the tree
behind it.  Up to its writes a build does the same with and without a map.
-/

namespace Stylesheet
namespace Command

/-- A part of a command. -/
abbrev Step (α : Type) :=
  ExceptT CommandFault (StateM FileTree) α

/-- What a part of a command gives, and the tree it leaves. -/
def result {α : Type} (step : Step α) (tree : FileTree) : Except CommandFault α × FileTree :=
  step.run.run tree

theorem runIn_eq (tree : FileTree) (command : Command) :
    runIn tree command =
      (.ofExcept (result (command.perform FileTree.access) tree).1,
        (result (command.perform FileTree.access) tree).2) :=
  rfl

theorem result_bind {α β : Type} (step : Step α) (next : α -> Step β) (tree : FileTree) :
    result (step >>= next) tree =
      match result step tree with
      | (.ok value, after) => result (next value) after
      | (.error fault, after) => (.error fault, after) := by
  unfold result
  rw [ExceptT.run_bind, StateT.run_bind]
  cases step.run.run tree with
  | mk outcome after => cases outcome <;> rfl

/-! ## Files -/

/-- The stylesheet of a path as a command reads it. -/
def sheet (tree : FileTree) (path : String) (positions : Bool) : Except CommandFault Node :=
  match tree.read path with
  | .error fault => .error (.ofRead path fault)
  | .ok text => (Stylesheet.parse text ⟨some path, positions⟩).mapError .unparsed

theorem result_readFile (tree : FileTree) (path : String) :
    result (FileTree.access.readFile path) tree =
      ((tree.read path).mapError (CommandFault.ofRead path), tree) :=
  rfl

theorem result_parseFile (tree : FileTree) (path : String) (positions : Bool) :
    result (FileTree.access.parseFile path positions) tree =
      (sheet tree path positions, tree) := by
  rw [FileAccess.parseFile, result_bind, result_readFile, sheet]
  cases tree.read path with
  | error fault => rfl
  | ok text =>
      simp only [Except.mapError]
      cases parse text ⟨some path, positions⟩ <;> rfl

theorem result_writeFile (tree : FileTree) (path text : String) :
    result (FileTree.access.writeFile path text) tree =
      match tree.write path text with
      | .ok written => (.ok (), written)
      | .error fault => (.error (.unwritable path fault), tree) := by
  change ((FileTree.access.write path text tree).1.mapError _,
    (FileTree.access.write path text tree).2) = _
  simp only [FileTree.access]
  cases tree.write path text <;> rfl

theorem map_mapError {ε ε' α β : Type} (f : α -> β) (g : ε -> ε') (outcome : Except ε α) :
    (outcome.mapError g).map f = (outcome.map f).mapError g := by
  cases outcome <;> rfl

/-- Locations change nothing in a stylesheet but themselves, and no fault. -/
theorem map_erase_sheet (tree : FileTree) (path : String) (positions positions' : Bool) :
    (sheet tree path positions).map Node.erase = (sheet tree path positions').map Node.erase := by
  unfold sheet
  cases tree.read path with
  | error fault => rfl
  | ok text =>
      simp only
      rw [map_mapError, map_mapError, map_erase_parse, map_erase_parse]

/-! ## Commands -/

theorem result_check (tree : FileTree) (path : String) :
    result (perform FileTree.access (.check path)) tree =
      ((sheet tree path false).map fun _ => .report ("OK: " ++ path), tree) := by
  rw [perform, checkFile, result_bind, result_parseFile]
  cases sheet tree path false <;> rfl

theorem result_buildToOutput (tree : FileTree) (path : String) :
    result (buildToOutput FileTree.access path) tree =
      ((sheet tree path false).map fun node => .print (generate node ++ "\n"), tree) := by
  rw [buildToOutput, result_bind, result_parseFile]
  cases sheet tree path false <;> rfl

/-- The last step of a build to a file. -/
def writeSheet (output text : String) : Step Outcome := do
  FileTree.access.writeFile output text
  return .report ("Built: " ++ output)

theorem result_writeSheet (tree : FileTree) (output text : String) :
    result (writeSheet output text) tree =
      match tree.write output text with
      | .ok written => (.ok (.report ("Built: " ++ output)), written)
      | .error fault => (.error (.unwritable output fault), tree) := by
  rw [writeSheet, result_bind, result_writeFile]
  cases tree.write output text <;> rfl

theorem map_generateWith_plain (file sourceRoot : Option String) (node : Node) :
    (generateWith ⟨false, file, sourceRoot⟩ node).map = none := by
  simp only [generateWith, Writer.node, Writer.foldl_piece, Writer.start]
  rfl

theorem map_generateWith_mapped (file sourceRoot : Option String) (node : Node) :
    exists map, (generateWith ⟨true, file, sourceRoot⟩ node).map = some map := by
  simp only [generateWith, Writer.node, Writer.foldl_piece, Writer.start]
  exact ⟨_, rfl⟩

theorem result_buildToFile_plain (tree : FileTree) (path output : String)
    (sourceRoot : Option String) :
    result (buildToFile FileTree.access path output false sourceRoot) tree =
      match sheet tree path false with
      | .ok node => result (writeSheet output (generate node ++ "\n")) tree
      | .error fault => (.error fault, tree) := by
  rw [buildToFile, result_bind, result_parseFile]
  cases sheet tree path false with
  | error fault => rfl
  | ok node =>
      simp only [css_generateWith, map_generateWith_plain]
      rfl

theorem result_buildToFile_mapped (tree : FileTree) (path output : String)
    (sourceRoot : Option String) :
    result (buildToFile FileTree.access path output true sourceRoot) tree =
      match sheet tree path true with
      | .ok node =>
          let options := ⟨true, some (Path.fileName output), sourceRoot⟩
          let text := ((generateWith options node).map.map SourceMap.text).getD ""
          match tree.write (mapPath output) text with
          | .ok written =>
              result (writeSheet output (generate node ++ trailer output true)) written
          | .error fault => (.error (.unwritable (mapPath output) fault), tree)
      | .error fault => (.error fault, tree) := by
  rw [buildToFile, result_bind, result_parseFile]
  cases sheet tree path true with
  | error fault => rfl
  | ok node =>
      rcases map_generateWith_mapped (some (Path.fileName output)) sourceRoot node with ⟨map, hmap⟩
      simp only [css_generateWith, hmap, Option.map_some, Option.getD_some]
      rw [result_bind, result_writeFile]
      cases tree.write (mapPath output) map.text <;> rfl

end Command
end Stylesheet
