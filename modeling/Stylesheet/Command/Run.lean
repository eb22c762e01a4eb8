import Stylesheet.Command.FileTree
import Stylesheet.Command.Help
import Stylesheet.Generate
import Stylesheet.Json.Text
import Stylesheet.Plain.Encode
import Stylesheet.Sheet

/-!
# Running commands

A command reads one stylesheet, prints or writes what it makes of it, and stops at the
first fault.  It reaches files only by a way to read and a way to write them, so that the
same command runs in a file tree and on a disk.
-/

namespace Stylesheet

/-- What a command has printed, and its exit code. -/
structure Outcome where
  exit : Nat
  printed : String
  reported : String
deriving DecidableEq, Repr

/-- Why a command fails. -/
inductive CommandFault where
  | notFound (path : String)
  | unreadable (path : String) (fault : FileFault)
  | unparsed (error : ParseError)
  | unwritable (path : String) (fault : FileFault)
deriving DecidableEq, Repr

namespace CommandFault

/-- The fault of a path that could not be read. -/
def ofRead (path : String) (fault : FileFault) : CommandFault :=
  if fault.saysAbsent then notFound path else unreadable path fault

/-- The line that reports a fault. -/
def message : CommandFault -> String
  | notFound path => "Error: file not found: " ++ path
  | unreadable path fault => "Error reading " ++ path ++ ": " ++ fault.text
  | unparsed error => error.message
  | unwritable path fault => "Error writing " ++ path ++ ": " ++ fault.text

end CommandFault

namespace Outcome

/-- Success, with a text on the standard output. -/
def print (text : String) : Outcome := ⟨0, text, ""⟩

/-- Success, with a line on the standard error. -/
def report (line : String) : Outcome := ⟨0, "", line ++ "\n"⟩

/-- Failure, with the line that reports a fault. -/
def fail (fault : CommandFault) : Outcome := ⟨1, "", fault.message ++ "\n"⟩

/-- The outcome of a command that a fault may have stopped. -/
def ofExcept : Except CommandFault Outcome -> Outcome
  | .ok outcome => outcome
  | .error fault => fail fault

end Outcome

/-- A way to read and write the texts of files. -/
structure FileAccess (m : Type -> Type) where
  read : String -> m (Except FileFault String)
  write : String -> String -> m (Except FileFault Unit)

/-- Files are read from a file tree and written into it. -/
def FileTree.access : FileAccess (StateM FileTree) where
  read path tree := (tree.read path, tree)
  write path text tree :=
    match tree.write path text with
    | .ok written => (.ok (), written)
    | .error fault => (.error fault, tree)

namespace FileAccess

variable {m : Type -> Type} [Monad m]

/-- Reads a file for a command. -/
def readFile (files : FileAccess m) (path : String) : ExceptT CommandFault m String :=
  ExceptT.mk do
    return (← files.read path).mapError (CommandFault.ofRead path)

/-- Writes a file for a command. -/
def writeFile (files : FileAccess m) (path text : String) : ExceptT CommandFault m Unit :=
  ExceptT.mk do
    return (← files.write path text).mapError (CommandFault.unwritable path)

/-- Parses the stylesheet of a path, which names it. -/
def parseFile (files : FileAccess m) (path : String) (positions : Bool) :
    ExceptT CommandFault m Node := do
  let text ← files.readFile path
  match Stylesheet.parse text ⟨some path, positions⟩ with
  | .ok node => return node
  | .error error => throw (.unparsed error)

end FileAccess

namespace Command

variable {m : Type -> Type} [Monad m]

/-- Prints the generated stylesheet. -/
def buildToOutput (files : FileAccess m) (path : String) : ExceptT CommandFault m Outcome := do
  let node ← files.parseFile path false
  return .print (generate node ++ "\n")

/-- The path of the map of a generated stylesheet. -/
def mapPath (output : String) : String := output ++ ".map"

/-- What is written behind a generated stylesheet. -/
def trailer (output : String) (sourceMap : Bool) : String :=
  if sourceMap then
    "\n" ++ SourceMap.comment (Path.fileName (mapPath output)) ++ "\n"
  else
    "\n"

/-- Writes the generated stylesheet, and before it its map, if one is asked for. -/
def buildToFile (files : FileAccess m) (path output : String) (sourceMap : Bool)
    (sourceRoot : Option String) : ExceptT CommandFault m Outcome := do
  let node ← files.parseFile path sourceMap
  let generated := generateWith ⟨sourceMap, some (Path.fileName output), sourceRoot⟩ node
  match generated.map with
  | some map => files.writeFile (mapPath output) map.text
  | none => pure ()
  files.writeFile output (generated.css ++ trailer output sourceMap)
  return .report ("Built: " ++ output)

/-- Parses a stylesheet and says so. -/
def checkFile (files : FileAccess m) (path : String) : ExceptT CommandFault m Outcome := do
  let _ ← files.parseFile path false
  return .report ("OK: " ++ path)

/-- Prints the plain tree of a stylesheet. -/
def printTree (files : FileAccess m) (path : String) (positions : Bool) :
    ExceptT CommandFault m Outcome := do
  let node ← files.parseFile path positions
  return .print ((Plain.encode node).pretty ++ "\n")

/-- The line that names the program and its version. -/
def versionLine : String := "cascade 0.7.0\n"

/-- Carries out a command up to its first fault. -/
def perform (files : FileAccess m) : Command -> ExceptT CommandFault m Outcome
  | build path none _ _ => buildToOutput files path
  | build path (some output) sourceMap sourceRoot =>
      buildToFile files path output sourceMap sourceRoot
  | check path => checkFile files path
  | ast path positions => printTree files path positions
  | version => return .print versionLine
  | help none => return .print Help.overview.text
  | help (some verb) => return .print (Help.page verb).text
  | helpOnHelp => return .print Help.onHelp.text

/-- Runs a command. -/
def run (files : FileAccess m) (command : Command) : m Outcome := do
  return .ofExcept (← (command.perform files).run)

/-- Runs a command in a file tree. -/
def runIn (tree : FileTree) (command : Command) : Outcome × FileTree :=
  (command.run FileTree.access).run tree

end Command

end Stylesheet
