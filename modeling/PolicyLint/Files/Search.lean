import PolicyLint.NameMap
import PolicyLint.LoadError

/-!
# Finding policy files

`FileSearch.policyFiles` finds the policy files that a path leads to : the file itself, or the
files of a directory whose names end in `.yml` or `.yaml`. The entries of a directory come in
the order of their names, and the files of a subdirectory in the place of its name; excluded
subdirectories are passed over.
-/

namespace PolicyLint

/-! ## Names of policy files -/

namespace Path

/-- What follows the last dot of a name, if there is something before that dot. -/
def extensionOfName? (name : List Char) : Option (List Char) :=
  let extension := (name.reverse.takeWhile (· != '.')).reverse
  if extension.length + 1 < name.length then some extension else none

/-- The extension of the name that a path ends in. -/
def extension? (path : String) : Option (List Char) :=
  (name? path).bind fun name => extensionOfName? name.toList

/-- Whether a path ends in `.yml` or `.yaml`, in letters of either case. -/
def isPolicyFile (path : String) : Bool :=
  match extension? path with
  | some extension =>
    let extension := extension.map Char.toLower
    extension == "yml".toList || extension == "yaml".toList
  | none => false

end Path

/-! ## Search -/

/-- A file that was found, with its text, which is `none` if it is not UTF-8. -/
structure FoundFile where
  path : String
  text : Option String

/-- What to pass over when looking for policy files. -/
structure FileSearch where
  isRecursive : Bool := true
  excludedNames : List String := [".git", "node_modules", "target"]

namespace FileSearch

variable (search : FileSearch)

/-- Pass over the directories with another name, too. -/
def exclude (name : String) : FileSearch :=
  { search with excludedNames := search.excludedNames ++ [name] }

mutual

/-- The policy files at `path`, an entry of a directory under `name`. -/
def inEntry (path name : String) : FileTree → List FoundFile
  | .file text => if Path.isPolicyFile path then [⟨path, text⟩] else []
  | .directory entries =>
    if !search.isRecursive || search.excludedNames.contains name then []
    else (inEntries path entries).values.flatten

/-- The policy files in the entries of the directory at `path`, by the names of the
entries. -/
def inEntries (path : String) : List (String × FileTree) → NameMap (List FoundFile)
  | [] => ∅
  | (name, tree) :: entries =>
    (inEntries path entries).insert name (inEntry (Path.join path name) name tree)

end

/-- The policy files that `path` leads to. A file counts whatever its name is. -/
def policyFiles (files : Files) (path : String) : Except LoadError (List FoundFile) :=
  match files.look path with
  | .error _ => .error (.pathMissing path)
  | .ok (.file text) => .ok [⟨path, text⟩]
  | .ok (.directory entries) => .ok (search.inEntries path entries).values.flatten

end FileSearch

end PolicyLint
