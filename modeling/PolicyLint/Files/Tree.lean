/-!
# Files and directories

A `FileTree` is a file or a directory, and `Files` says what a path leads to. `Files.ofTree`
follows paths through a tree from a working directory; `Files.read` is the text of a file.
-/

namespace PolicyLint

/-- A file with its text, which is `none` if it is not UTF-8, or a directory. -/
inductive FileTree
  | file (text : Option String)
  | directory (entries : List (String × FileTree))

/-- Why a path cannot be read. -/
inductive ReadError
  | missing
  | notDirectory
  | isDirectory
  | notText
deriving DecidableEq, Repr

namespace ReadError

/-- The error in words. -/
def message : ReadError → String
  | missing => "No such file or directory (os error 2)"
  | notDirectory => "Not a directory (os error 20)"
  | isDirectory => "Is a directory (os error 21)"
  | notText => "stream did not contain valid UTF-8"

end ReadError

/-- What paths lead to. -/
structure Files where
  look : String → Except ReadError FileTree

/-! ## Paths -/

namespace Path

/-- The parts of a path between its slashes, of which `part` is the start of the first, in
reverse. -/
def partsFrom (part : List Char) : List Char → List String
  | [] => [String.ofList part.reverse]
  | c :: text =>
    if c = '/' then String.ofList part.reverse :: partsFrom [] text
    else partsFrom (c :: part) text

/-- The parts of a path between its slashes. -/
def parts (path : String) : List String :=
  partsFrom [] path.toList

/-- Whether a path starts at the root. -/
def isAbsolute (path : String) : Bool :=
  path.toList.head? == some '/'

/-- The path of an entry of the directory at `path`. -/
def join (path name : String) : String :=
  if path.toList.getLast? == some '/' then path ++ name else path ++ "/" ++ name

/-- The name that a path ends in. Parts that stay where they are do not count, and a path that
goes up at its end has no name. -/
def name? (path : String) : Option String :=
  match ((parts path).filter fun part => part != "" && part != ".").getLast? with
  | some ".." => none
  | name => name

end Path

namespace FileTree

/-- What a path leads to from a directory with the directories `above` it, given as its parts.
The last directory has itself above it. -/
def walk : (above : List FileTree) → FileTree → (parts : List String) →
    Except ReadError FileTree
  | _, tree, [] => .ok tree
  | above, directory entries, part :: parts =>
    if part == "" || part == "." then walk above (directory entries) parts
    else if part == ".." then
      match above with
      | [] => walk [] (directory entries) parts
      | up :: above => walk above up parts
    else
      match entries.lookup part with
      | some tree => walk (directory entries :: above) tree parts
      | none => .error .missing
  | _, file _, _ :: _ => .error .notDirectory

end FileTree

namespace Files

/-- The paths into a tree, from the working directory with the given parts. The empty path
leads nowhere. -/
def ofTree (root : FileTree) (working : List String) : Files where
  look path :=
    if path.isEmpty then .error .missing
    else if Path.isAbsolute path then root.walk [] (Path.parts path)
    else root.walk [] (working ++ Path.parts path)

/-- Whether a path leads to a file. -/
def isFile (files : Files) (path : String) : Bool :=
  match files.look path with
  | .ok (.file _) => true
  | _ => false

/-- The text of the file that a path leads to. -/
def read (files : Files) (path : String) : Except ReadError String :=
  match files.look path with
  | .ok (.file (some text)) => .ok text
  | .ok (.file none) => .error .notText
  | .ok (.directory _) => .error .isDirectory
  | .error error => .error error

end Files

end PolicyLint
