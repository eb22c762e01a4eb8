/-!
# Command lines

The words of a command line are read from left to right.  The first names the command;
after it stand one path and options, in any order.  A word of two hyphens ends the
options.  A wrong word stops the reading at once, and so does a request for help; whether
something is missing is decided at the end.
-/

namespace Stylesheet

/-- The commands that work on a stylesheet. -/
inductive Verb where
  | build
  | check
  | ast
deriving DecidableEq, Repr

/-- What a command line asks for. -/
inductive Command where
  | build (path : String) (output : Option String) (sourceMap : Bool)
      (sourceRoot : Option String)
  | check (path : String)
  | ast (path : String) (positions : Bool)
  | version
  | help (topic : Option Verb)
  | helpOnHelp
deriving DecidableEq, Repr

/-! ## Words -/

/-- The form of a word: a value, the end of the options, a long or a short option. -/
inductive Word where
  | value (text : String)
  | endOfOptions
  | long (name : String) (attached : Option String)
  | short (letter : Char) (attached : List Char)
deriving DecidableEq, Repr

/-- A long option, with the value after the first equals sign. -/
def Word.ofLong (text : List Char) : Word :=
  match text.dropWhile fun c => c != '=' with
  | [] => .long (String.ofList text) none
  | _ :: attached =>
      .long (String.ofList (text.takeWhile fun c => c != '=')) (some (String.ofList attached))

/-- The form of a word; a single hyphen is a value. -/
def Word.ofText (text : String) : Word :=
  match text.toList with
  | ['-', '-'] => .endOfOptions
  | '-' :: '-' :: name => .ofLong name
  | '-' :: letter :: attached => .short letter attached
  | _ => .value text

/-! ## Options -/

/-- The options of the commands. -/
inductive Setting where
  | output
  | sourceMap
  | sourceRoot
  | positions
deriving DecidableEq, Repr

namespace Setting

/-- The long name of an option. -/
def name : Setting -> String
  | output => "output"
  | sourceMap => "source-map"
  | sourceRoot => "source-root"
  | positions => "positions"

/-- The letter of an option that has one. -/
def letter? : Setting -> Option Char
  | output => some 'o'
  | _ => none

/-- Whether an option has a value. -/
def hasValue : Setting -> Bool
  | output => true
  | sourceRoot => true
  | _ => false

end Setting

/-- The options of a command. -/
def Verb.settings : Verb -> List Setting
  | build => [.output, .sourceMap, .sourceRoot]
  | check => []
  | ast => [.positions]

/-- Why the reading of the words stops early. -/
inductive Interruption where
  | usage
  | help
deriving DecidableEq, Repr

/-- What has been read: the path, the options with their values, and what the next word is. -/
structure Reading where
  path : Option String
  given : List (Setting × String)
  awaiting : Option Setting
  optionsEnded : Bool
deriving DecidableEq, Repr

namespace Reading

/-- Nothing has been read. -/
def initial : Reading := ⟨none, [], none, false⟩

/-- Reads the path, which stands once. -/
def addPath (reading : Reading) (path : String) : Except Interruption Reading :=
  match reading.path with
  | none => .ok { reading with path := some path }
  | some _ => .error .usage

/-- Reads an option, which stands once, with its value. -/
def give (reading : Reading) (setting : Setting) (value : String) :
    Except Interruption Reading :=
  match reading.given.lookup setting with
  | none => .ok { reading with given := (setting, value) :: reading.given, awaiting := none }
  | some _ => .error .usage

/-- Reads an option with the value that is attached to it, if there is one. -/
def giveAttached (reading : Reading) (setting : Setting) (attached : Option String) :
    Except Interruption Reading :=
  match setting.hasValue, attached with
  | true, some value => reading.give setting value
  | true, none => .ok { reading with awaiting := some setting }
  | false, none => reading.give setting ""
  | false, some _ => .error .usage

/-- The value that is attached to a letter; an equals sign may stand in front of it. -/
def attachedToLetter : List Char -> Option String
  | [] => none
  | '=' :: value => some (String.ofList value)
  | value => some (String.ofList value)

/-- Reads an option of a command. -/
def readOption (verb : Verb) (reading : Reading) : Word -> Except Interruption Reading
  | .long "help" none => .error .help
  | .short 'h' _ => .error .help
  | .long name attached =>
      match verb.settings.find? fun setting => setting.name == name with
      | some setting => reading.giveAttached setting attached
      | none => .error .usage
  | .short letter attached =>
      match verb.settings.find? fun setting => setting.letter? == some letter with
      | some setting => reading.giveAttached setting (attachedToLetter attached)
      | none => .error .usage
  | .endOfOptions => .ok { reading with optionsEnded := true }
  | .value path => reading.addPath path

/-- Reads the next word of a command. -/
def step (verb : Verb) (reading : Reading) (text : String) : Except Interruption Reading :=
  if reading.optionsEnded then
    reading.addPath text
  else
    match reading.awaiting, Word.ofText text with
    | none, word => reading.readOption verb word
    | some setting, .value value => reading.give setting value
    | some _, _ => .error .usage

/-- Whether an option was given. -/
def has (reading : Reading) (setting : Setting) : Bool :=
  (reading.given.lookup setting).isSome

/-- The command, when nothing is missing: a map needs an output, and a root needs a map. -/
def command? (verb : Verb) (reading : Reading) : Option Command :=
  match reading.path, reading.awaiting with
  | some path, none =>
      match verb with
      | .build =>
          if (reading.has .sourceMap && !reading.has .output) ||
              (reading.has .sourceRoot && !reading.has .sourceMap) then
            none
          else
            some (.build path (reading.given.lookup .output) (reading.has .sourceMap)
              (reading.given.lookup .sourceRoot))
      | .check => some (.check path)
      | .ast => some (.ast path (reading.has .positions))
  | _, _ => none

end Reading

/-! ## Commands -/

/-- The command of a name. -/
def Verb.ofName? : String -> Option Verb
  | "build" => some .build
  | "check" => some .check
  | "ast" => some .ast
  | _ => none

namespace Command

/-- The words after the name of a command. -/
def ofWords? (verb : Verb) (words : List String) : Option Command :=
  match words.foldlM (Reading.step verb) Reading.initial with
  | .ok reading => reading.command? verb
  | .error .help => some (.help (some verb))
  | .error .usage => none

/-- The words after `help`: the name of one command, or none. -/
def ofHelpWords? : List String -> Option Command
  | [] => some (.help none)
  | ["help"] => some .helpOnHelp
  | [name] => (Verb.ofName? name).map fun verb => .help (some verb)
  | _ => none

/-- The command that the words of a command line ask for; none of them if they are wrong. -/
def ofArguments? : List String -> Option Command
  | [] => none
  | first :: rest =>
      match Word.ofText first with
      | .long "version" none => some .version
      | .short 'V' _ => some .version
      | .long "help" none => some (.help none)
      | .short 'h' _ => some (.help none)
      | .value "help" => ofHelpWords? rest
      | .value name =>
          match Verb.ofName? name with
          | some verb => ofWords? verb rest
          | none => none
      | _ => none

end Command

end Stylesheet
