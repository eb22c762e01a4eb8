import Stylesheet.Command.Run

/-!
# The command line program

The program reads and writes files on the disk; what it does with them is said by the
commands.
-/

namespace Stylesheet

/-- The number of a system error, which may be given with its sign reversed. -/
def errorNumber (code : UInt32) : Nat :=
  min code.toNat (-code).toNat

/-- The fault of a failed operation on the disk. -/
def FileFault.ofError (error : IO.Error) : FileFault :=
  match error with
  | .noFileOrDirectory _ _ _ => .missing
  | .inappropriateType _ code _ =>
      if errorNumber code = 20 then .notFolder
      else if errorNumber code = 21 then .isFolder
      else .other (toString error)
  | .invalidArgument _ code _ =>
      if errorNumber code = 36 then .nameTooLong else .other (toString error)
  | _ => .other (toString error)

/-- Reads the text of a file on the disk. -/
def readFromDisk (path : String) : IO (Except FileFault String) := do
  match ← (IO.FS.readBinFile path).toBaseIO with
  | .error error => return .error (.ofError error)
  | .ok bytes =>
      match String.fromUTF8? bytes with
      | some text => return .ok text
      | none => return .error .notText

/-- Writes the text of a file on the disk. -/
def writeToDisk (path text : String) : IO (Except FileFault Unit) := do
  match ← (IO.FS.writeFile path text).toBaseIO with
  | .error error => return .error (.ofError error)
  | .ok () => return .ok ()

/-- Files are read from the disk and written to it. -/
def diskAccess : FileAccess IO := ⟨readFromDisk, writeToDisk⟩

/-- Runs the command that the arguments ask for, and gives its exit code. -/
def runArguments (arguments : List String) : IO UInt32 := do
  match Command.ofArguments? arguments with
  | none =>
      (← IO.getStderr).putStr Help.overview.text
      return 2
  | some command =>
      let outcome ← command.run diskAccess
      (← IO.getStdout).putStr outcome.printed
      (← IO.getStderr).putStr outcome.reported
      return outcome.exit.toUInt32

end Stylesheet

def main (arguments : List String) : IO UInt32 :=
  Stylesheet.runArguments arguments
