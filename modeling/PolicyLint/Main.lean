import PolicyLint.Command.Run

/-!
# The program

`main` reads the files that its command line names, runs the command on them, and writes what
the command leaves behind. All that the command decides is decided in `Outcome.ofArguments`.
-/

namespace PolicyLint

/-- The paths that a run reads. -/
def Invocation.readPaths : Invocation → List String
  | .version => []
  | .rules catalog => catalog.toList
  | .check options => options.catalog.toList ++ options.paths

/-- The file or the directory at a path, with the directories in it that a check enters and
the texts of their policy files. -/
partial def readTree (path : String) : IO FileTree := do
  let place := (← IO.currentDir) / path
  if ← place.isDir then
    let entries ← place.readDir
    let entries ← entries.toList.mapM fun entry => do
      let name := entry.fileName
      if ({} : FileSearch).excludedNames.contains name then return (name, .directory [])
      else return (name, ← readTree (Path.join path name))
    return .directory entries
  else
    return .file (String.fromUTF8? (← IO.FS.readBinFile place))

/-- What a path leads to. -/
def readPath (path : String) : IO (Except ReadError FileTree) := do
  if path.isEmpty then return .error .missing
  try
    return .ok (← readTree path)
  catch
    | .inappropriateType .. => return .error .notDirectory
    | _ => return .error .missing

/-- The files that paths lead to. -/
def readFiles (paths : List String) : IO Files := do
  let read ← paths.mapM fun path => do
    return (path, ← readPath path)
  return ⟨fun path => (read.lookup path).getD (.error .missing)⟩

/-- The path of the catalog of the user. -/
def userCatalogPath : IO (Option String) := do
  let directory ← do
    match ← IO.getEnv "XDG_CONFIG_HOME" with
    | some path =>
      if Path.isAbsolute path then pure (some path) else homeDirectory
    | none => homeDirectory
  return directory.map fun path => Path.join (Path.join path "custos") "catalog.yml"
where
  /-- The directory for the configuration in the home directory. -/
  homeDirectory : IO (Option String) := do
    return (← IO.getEnv "HOME").map fun home => Path.join home ".config"

end PolicyLint

open PolicyLint in
/-- Run the program. -/
def main (arguments : List String) : IO UInt32 := do
  let environment ← IO.getEnv "CUSTOS_CATALOG"
  let userPath ← userCatalogPath
  let paths := match Invocation.ofArguments? environment arguments with
    | some invocation => invocation.readPaths ++ userPath.toList
    | none => []
  let files ← readFiles paths
  let outcome := Outcome.ofArguments files userPath environment arguments
  IO.print outcome.stdout
  IO.eprint outcome.stderr
  return outcome.exitCode.toUInt32
