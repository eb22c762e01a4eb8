import Stylesheet.Command.Arguments

/-!
# Help

The texts that describe the command line: what a command does, how it is used, and its
parts in columns.
-/

namespace Stylesheet
namespace Help

/-- A line of a column of names and a column of descriptions. -/
structure Entry where
  name : String
  about : String
deriving DecidableEq, Repr

/-- Entries under a title. -/
structure Section where
  title : String
  entries : List Entry
deriving DecidableEq, Repr

/-- The text that describes one command. -/
structure Page where
  about : String
  usage : String
  sections : List Section
deriving DecidableEq, Repr

/-- A line that is indented, with its description two columns after the longest name. -/
def Entry.text (width : Nat) (entry : Entry) : String :=
  "  " ++ entry.name ++ String.ofList (List.replicate (width - entry.name.length) ' ') ++
    "  " ++ entry.about ++ "\n"

def Section.text (block : Section) : String :=
  let width := (block.entries.map fun entry => entry.name.length).foldl max 0
  "\n" ++ block.title ++ ":\n" ++ String.join (block.entries.map (Entry.text width))

def Page.text (page : Page) : String :=
  page.about ++ "\n\nUsage: " ++ page.usage ++ "\n" ++ String.join (page.sections.map Section.text)

/-! ## The pages -/

def aboutBuild : String := "Rewrite a stylesheet as canonical minimal CSS"

def aboutCheck : String := "Check a stylesheet for errors without writing output"

def aboutAst : String := "Print the plain-object AST as JSON"

def aboutHelp : String := "Print this message or the help of the given subcommand(s)"

/-- The path of a stylesheet. -/
def pathSection : Section := ⟨"Arguments", [⟨"<PATH>", "Input .css file"⟩]⟩

/-- The option that every command has. -/
def helpEntry : Entry := ⟨"-h, --help", "Print help"⟩

/-- The page on all commands. -/
def overview : Page :=
  ⟨"Cascade: CSS parser and generator with source maps", "cascade <COMMAND>", [
    ⟨"Commands", [
      ⟨"build", aboutBuild⟩,
      ⟨"check", aboutCheck⟩,
      ⟨"ast", aboutAst⟩,
      ⟨"help", aboutHelp⟩]⟩,
    ⟨"Options", [helpEntry, ⟨"-V, --version", "Print version"⟩]⟩]⟩

/-- The page on a command. -/
def page : Verb -> Page
  | .build =>
      ⟨aboutBuild, "cascade build [OPTIONS] <PATH>", [
        pathSection,
        ⟨"Options", [
          ⟨"-o, --output <OUTPUT>", "Output file (stdout when omitted)"⟩,
          ⟨"    --source-map", "Write `<output>.map` and link it from the CSS"⟩,
          ⟨"    --source-root <SOURCE_ROOT>", "`sourceRoot` recorded in the map"⟩,
          helpEntry]⟩]⟩
  | .check =>
      ⟨aboutCheck, "cascade check <PATH>", [pathSection, ⟨"Options", [helpEntry]⟩]⟩
  | .ast =>
      ⟨aboutAst, "cascade ast [OPTIONS] <PATH>", [
        pathSection,
        ⟨"Options", [⟨"    --positions", "Include source locations"⟩, helpEntry]⟩]⟩

/-- The page on help itself. -/
def onHelp : Page :=
  ⟨aboutHelp, "cascade help [COMMAND]...", [
    ⟨"Arguments", [⟨"[COMMAND]...", "Print help for the subcommand(s)"⟩]⟩]⟩

end Help
end Stylesheet
