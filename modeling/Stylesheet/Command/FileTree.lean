import Stylesheet.Command.Path

/-!
# File trees

A file tree holds folders and files under the segments that lead to them from the root,
and the folder in which commands run.  Reading and writing follow the segments of a path
and fail as they do on disk: every segment is looked up in a folder, and a folder itself
is neither read nor written.
-/

namespace Stylesheet

/-- What a file holds. -/
inductive Content where
  | text (text : String)
  | binary (bytes : List UInt8)
deriving DecidableEq, Repr

/-- Why a file could not be read or written. -/
inductive FileFault where
  | missing
  | notFolder
  | isFolder
  | nameTooLong
  | notText
  | other (reason : String)
deriving DecidableEq, Repr

namespace FileFault

/-- The wording of a fault. -/
def text : FileFault -> String
  | missing => "No such file or directory (os error 2)"
  | notFolder => "Not a directory (os error 20)"
  | isFolder => "Is a directory (os error 21)"
  | nameTooLong => "File name too long (os error 36)"
  | notText => "stream did not contain valid UTF-8"
  | other reason => reason

/-- Whether the fault says that a path leads to nothing. -/
def saysAbsent : FileFault -> Bool
  | missing => true
  | notFolder => true
  | nameTooLong => true
  | _ => false

end FileFault

structure FileTree where
  folders : List (List String)
  files : List (List String × Content)
  home : List String
deriving DecidableEq, Repr

namespace FileTree

/-! ## Looking up -/

/-- The content of the file at a location. -/
def content? (tree : FileTree) (location : List String) : Option Content :=
  tree.files.lookup location

/--
Whether there is a folder at a location: the root, a folder of the tree, or one on the
way to a folder or file.
-/
def isFolder (tree : FileTree) (location : List String) : Bool :=
  location.isEmpty || location.isPrefixOf tree.home ||
    tree.folders.any location.isPrefixOf ||
    tree.files.any fun file => location.isPrefixOf file.1 && location != file.1

/-- Insists on a folder at a location. -/
def requireFolder (tree : FileTree) (location : List String) : Except FileFault Unit :=
  if tree.isFolder location then
    .ok ()
  else if (tree.content? location).isSome then
    .error .notFolder
  else
    .error .missing

/-- The most bytes that a path has. -/
def longestPath : Nat := 4095

/-- The most bytes that a segment has. -/
def longestSegment : Nat := 255

/-- The segments of a path; the empty path leads nowhere. -/
def segments (path : String) : Except FileFault (List String) :=
  if path.utf8ByteSize > longestPath then .error .nameTooLong
  else if path.isEmpty then .error .missing
  else .ok (Path.segments path)

/-- Where a path starts. -/
def start (tree : FileTree) (path : String) : List String :=
  if Path.isAbsolute path then [] else tree.home

/-- The location to which a segment leads from a folder; above the root is the root. -/
def enter (location : List String) (segment : String) : List String :=
  if Path.isIdle segment then location
  else if segment = ".." then location.dropLast
  else location ++ [segment]

/-- Follows segments from a location. -/
def walk (tree : FileTree) : List String -> List String -> Except FileFault (List String)
  | location, [] => .ok location
  | location, segment :: rest => do
      tree.requireFolder location
      if segment.utf8ByteSize > longestSegment then
        throw .nameTooLong
      tree.walk (enter location segment) rest

/-! ## Reading and writing -/

/-- Reads the text of a file. -/
def read (tree : FileTree) (path : String) : Except FileFault String := do
  let location ← tree.walk (tree.start path) (← segments path)
  if tree.isFolder location then
    throw .isFolder
  match tree.content? location with
  | some (.text text) => return text
  | some (.binary _) => throw .notText
  | none => throw .missing

/-- The location of the file that a path names for writing, whether or not it is there. -/
def target (tree : FileTree) (path : String) : Except FileFault (List String) := do
  let segments ← segments path
  match (Path.withoutEnd segments).getLast? with
  | none => throw .isFolder
  | some name =>
      let folder ← tree.walk (tree.start path) (Path.withoutEnd segments).dropLast
      tree.requireFolder folder
      if segments.getLast? = some "" || !Path.isName name then
        throw .isFolder
      if name.utf8ByteSize > longestSegment then
        throw .nameTooLong
      if tree.isFolder (folder ++ [name]) then
        throw .isFolder
      return folder ++ [name]

/-- Puts a file at a location, in place of one that was there. -/
def insert (tree : FileTree) (location : List String) (content : Content) : FileTree :=
  { tree with
    files := (location, content) :: tree.files.filter fun file => file.1 != location }

/-- Writes the text of a file. -/
def write (tree : FileTree) (path text : String) : Except FileFault FileTree := do
  let location ← tree.target path
  return tree.insert location (.text text)

end FileTree

end Stylesheet
