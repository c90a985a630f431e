/-!
# The command line

`Invocation.ofArguments?` reads what a command line asks for. Options may stand anywhere after
the name of the command, each at most once, and what follows `--` is an operand. A catalog
may also be named by the environment, where the command line names none. A command line that
is not understood is `none`.
-/

namespace PolicyLint

/-- What a check is asked to do. -/
structure CheckOptions where
  paths : List String
  catalog : Option String := none
  isStrict : Bool := false
  hidesLocation : Bool := false
deriving DecidableEq, Repr

/-- What a command line asks for. -/
inductive Invocation
  | check (options : CheckOptions)
  | rules (catalog : Option String)
  | version
deriving DecidableEq, Repr

namespace Invocation

/-- The options and the operands of a command. -/
structure Arguments where
  catalog : Option String := none
  isStrict : Bool := false
  hidesLocation : Bool := false
  operands : List String := []

/-- The options that a command may have. -/
inductive OptionName
  | catalog
  | strict
  | noLocation
deriving DecidableEq, Repr

/-- Whether an argument looks like an option. A lone dash does not. -/
def looksLikeOption (argument : String) : Bool :=
  match argument.toList with
  | '-' :: _ :: _ => true
  | _ => false

/-- The value in an argument `--catalog=value`. -/
def catalogValue? (argument : String) : Option String :=
  let start := "--catalog=".toList
  if start.isPrefixOf argument.toList then
    some (String.ofList (argument.toList.drop start.length))
  else none

/-- The arguments with a catalog. It must be the first, and have a name. -/
def Arguments.setCatalog? (a : Arguments) (path : String) : Option Arguments :=
  if a.catalog.isSome || path.isEmpty then none else some { a with catalog := some path }

/-- Read arguments, of which the options must be among `options`. -/
def readArguments? (options : List OptionName) (a : Arguments) :
    List String → Option Arguments
  | [] => some a
  | "--" :: rest => some { a with operands := a.operands ++ rest }
  | "--strict" :: rest =>
    if !options.contains .strict || a.isStrict then none
    else readArguments? options { a with isStrict := true } rest
  | "--no-location" :: rest =>
    if !options.contains .noLocation || a.hidesLocation then none
    else readArguments? options { a with hidesLocation := true } rest
  | "--catalog" :: path :: rest => do
    if !options.contains .catalog || looksLikeOption path then none
    readArguments? options (← a.setCatalog? path) rest
  | argument :: rest => do
    match catalogValue? argument with
    | some path =>
      if !options.contains .catalog then none
      readArguments? options (← a.setCatalog? path) rest
    | none =>
      if looksLikeOption argument then none
      readArguments? options { a with operands := a.operands ++ [argument] } rest

/-- The catalog that the arguments name, or else the environment. -/
def catalogOr? (a : Arguments) (environment : Option String) : Option (Option String) :=
  match a.catalog, environment with
  | some path, _ => some (some path)
  | none, some "" => none
  | none, path => some path

/-- The paths that are checked if none is given. -/
def defaultPaths : List String :=
  ["policies"]

/-- What a command line asks for, with the catalog that the environment names. -/
def ofArguments? (environment : Option String) : List String → Option Invocation
  | [] => none
  | "check" :: rest => do
    let a ← readArguments? [.catalog, .strict, .noLocation] {} rest
    let catalog ← catalogOr? a environment
    if a.operands.any String.isEmpty then none
    let paths := if a.operands.isEmpty then defaultPaths else a.operands
    return .check ⟨paths, catalog, a.isStrict, a.hidesLocation⟩
  | "rules" :: rest => do
    let a ← readArguments? [.catalog] {} rest
    let catalog ← catalogOr? a environment
    if !a.operands.isEmpty then none
    return .rules catalog
  | "version" :: rest => do
    let a ← readArguments? [] {} rest
    if !a.operands.isEmpty then none
    return .version
  | "--version" :: _ => some .version
  | argument :: _ => if "-V".toList.isPrefixOf argument.toList then some .version else none

end Invocation

end PolicyLint
