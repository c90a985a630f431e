import PolicyLint.Yaml.Node

/-!
# The nesting of tokens

`Node.ofTokens?` reads the one document of a text from its tokens. A text without a document
is an empty node, and one with more than a document, or with tokens that do not nest, is
`none`.

The readers for nodes and for the entries of collections call each other; each of them takes
a token before it calls itself again, so the number of tokens bounds the depth of the calls.
-/

namespace PolicyLint.Yaml

/-- What is left to read, the handles of tags with the text they stand for, and the anchors
read so far with their numbers. -/
structure NodeReader where
  tokens : List Token
  handles : List (String × TagText) := []
  anchors : List (String × Nat) := []

namespace NodeReader

/-- A step that may fail. -/
abbrev Step := StateT NodeReader Option

/-- The next token. -/
def peek : Step (Option Token) := do
  return (← get).tokens.head?

/-- Step over a token. -/
def skip : Step Unit :=
  modify fun s => { s with tokens := s.tokens.tail }

/-- Step over the next token if it is `token`, and tell whether it was. -/
def accept (token : Token) : Step Bool := do
  if (← peek) == some token then
    skip
    return true
  else return false

/-- Step over the next token, which must be `token`. -/
def expect (token : Token) : Step Unit := do
  if !(← accept token) then failure

/-- Whether the next token is one of `tokens`. -/
def sees (tokens : List Token) : Step Bool := do
  return (← peek).any tokens.contains

/-! ## Properties -/

/-- Number an anchor : a name gets the number of names before it, also when it has one
already. -/
def setAnchor (name : String) : Step Nat := do
  let s ← get
  let n := s.anchors.length
  let anchors :=
    if s.anchors.any (·.1 == name) then
      s.anchors.map fun entry => if entry.1 == name then (name, n) else entry
    else s.anchors ++ [(name, n)]
  set { s with anchors }
  return n

/-- The text of a tag, its handle resolved. -/
def tagText (handle : String) (suffix : TagText) : Step TagText := do
  if handle.isEmpty then return suffix
  match (← get).handles.lookup handle with
  | some stem => return stem ++ suffix
  | none => failure

/-- An anchor, if there is one. -/
def anchor? : Step (Option String) := do
  match ← peek with
  | some (.anchor name) =>
    skip
    return some name
  | _ => return none

/-- The text of a tag, if there is one. -/
def tag? : Step (Option TagText) := do
  match ← peek with
  | some (.tag handle suffix) =>
    skip
    return some (← tagText handle suffix)
  | _ => return none

/-- The anchor and the tag before a node, in either order. -/
def properties : Step (Option String × Option TagText) := do
  match ← anchor? with
  | some name => return (some name, ← tag?)
  | none =>
    let tag ← tag?
    let name ← if tag.isSome then anchor? else pure none
    return (name, tag)

/-- The meaning of a tag that may be left out. -/
def tagOf (text : Option TagText) : Tag :=
  text.elim .none Tag.ofText

/-! ## Nodes -/

mutual

/-- A node. Block collections may stand only where `inBlock`, and a sequence that is indented
no further than its key only where `isValue`. -/
def node : (fuel : Nat) → (inBlock isValue : Bool) → Step Node
  | 0, _, _ => failure
  | fuel + 1, inBlock, isValue => do
    if let some (.reference name) ← peek then
      skip
      match (← get).anchors.lookup name with
      | some n => return .reference n
      | none => failure
    let (name, text) ← properties
    let anchor ← name.mapM setAnchor
    let tag := tagOf text
    match ← peek with
    | some .blockEntry =>
      if isValue then return .sequence anchor tag (← valueItems fuel)
      else emptyNode anchor text
    | some (.scalar isPlain content) =>
      skip
      return .scalar anchor ⟨tag, isPlain, content⟩
    | some .flowSequenceStart =>
      skip
      return .sequence anchor tag (← flowItems fuel true)
    | some .flowMappingStart =>
      skip
      return .mapping anchor tag (← flowEntries fuel true)
    | some .blockSequenceStart =>
      if inBlock then
        skip
        return .sequence anchor tag (← blockItems fuel)
      else emptyNode anchor text
    | some .blockMappingStart =>
      if inBlock then
        skip
        return .mapping anchor tag (← blockEntries fuel)
      else emptyNode anchor text
    | _ => emptyNode anchor text
where
  /-- A node of which only the properties are written; one of them is enough, also a tag
  without a text. -/
  emptyNode (anchor : Option Nat) (text : Option TagText) : Step Node :=
    if anchor.isSome || text.isSome then return .scalar anchor { tag := tagOf text }
    else failure

/-- A node, or an empty one if the next token is one of `ends`. -/
def nodeBefore : (fuel : Nat) → (ends : List Token) → (inBlock isValue : Bool) → Step Node
  | 0, _, _, _ => failure
  | fuel + 1, ends, inBlock, isValue => do
    if ← sees ends then return .empty
    else node fuel inBlock isValue

/-- The items of a block sequence, up to its end. -/
def blockItems : (fuel : Nat) → Step (List Node)
  | 0 => failure
  | fuel + 1 => do
    if ← accept .blockEntry then
      let item ← nodeBefore fuel [.blockEntry, .blockEnd] true false
      return item :: (← blockItems fuel)
    else
      expect .blockEnd
      return []

/-- The items of a sequence that is indented no further than its key. -/
def valueItems : (fuel : Nat) → Step (List Node)
  | 0 => failure
  | fuel + 1 => do
    if ← accept .blockEntry then
      let item ← nodeBefore fuel [.blockEntry, .key, .value, .blockEnd] true false
      return item :: (← valueItems fuel)
    else return []

/-- The entries of a block mapping, up to its end. -/
def blockEntries : (fuel : Nat) → Step (List (Node × Node))
  | 0 => failure
  | fuel + 1 => do
    if ← accept .key then
      let ends := [.key, .value, .blockEnd]
      let key ← nodeBefore fuel ends true true
      let value ← if ← accept .value then nodeBefore fuel ends true true else pure .empty
      return (key, value) :: (← blockEntries fuel)
    else
      expect .blockEnd
      return []

/-- The items of a flow sequence, up to its end. A pair with a `?` or a `:` is a mapping of
one entry. -/
def flowItems : (fuel : Nat) → (isFirst : Bool) → Step (List Node)
  | 0, _ => failure
  | fuel + 1, isFirst => do
    if ← accept .flowSequenceEnd then return []
    if !isFirst then expect .flowEntry
    if ← accept .key then
      let entry ← flowPair fuel
      return .mapping none .none [entry] :: (← flowItems fuel false)
    else if ← accept .flowSequenceEnd then return []
    else
      let item ← node fuel false false
      return item :: (← flowItems fuel false)

/-- A pair in a flow sequence, after its `?`. If the key is left out, so is the token after
it. -/
def flowPair : (fuel : Nat) → Step (Node × Node)
  | 0 => failure
  | fuel + 1 => do
    let isEmpty ← sees [.value, .flowEntry, .flowSequenceEnd]
    let key ← if isEmpty then skip; pure .empty else node fuel false false
    let value ←
      if ← accept .value then nodeBefore fuel [.flowEntry, .flowSequenceEnd] false false
      else pure .empty
    return (key, value)

/-- The entries of a flow mapping, up to its end. -/
def flowEntries : (fuel : Nat) → (isFirst : Bool) → Step (List (Node × Node))
  | 0, _ => failure
  | fuel + 1, isFirst => do
    if ← accept .flowMappingEnd then return []
    if !isFirst then expect .flowEntry
    if ← accept .key then
      let key ← nodeBefore fuel [.value, .flowEntry, .flowMappingEnd] false false
      let value ←
        if ← accept .value then nodeBefore fuel [.flowEntry, .flowMappingEnd] false false
        else pure .empty
      return (key, value) :: (← flowEntries fuel false)
    else if ← accept .flowMappingEnd then return []
    else
      let key ← node fuel false false
      return (key, .empty) :: (← flowEntries fuel false)

end

/-! ## Documents -/

/-- Read the directives before a document, and tell whether there is one with a version. -/
def directives : (tokens : List Token) → (hasVersion : Bool) → Step Unit
  | .version major minor :: tokens, hasVersion => do
    if hasVersion || major != 1 || !(minor == 1 || minor == 2) then failure
    skip
    directives tokens true
  | .tagHandle handle stem :: tokens, hasVersion => do
    let s ← get
    if (s.handles.lookup handle).isSome then failure
    set { s with tokens := s.tokens.tail, handles := (handle, stem) :: s.handles }
    directives tokens hasVersion
  | _, _ =>
    modify fun s =>
      { s with handles := s.handles ++ [("!", [some '!']), ("!!", Tag.coreStem)] }

/-- Step over the marks for the end of a document; nothing may follow them. -/
def finish : Step Unit := do
  if (← get).tokens.any (· != .documentEnd) then failure

/-- The document of a text. Its start is marked if directives stand before it. -/
def document (fuel : Nat) : Step Node := do
  let tokens := (← get).tokens
  directives tokens false
  if tokens.isEmpty then return .empty
  let isMarked ← accept .documentStart
  if !isMarked && (← get).tokens.length != tokens.length then failure
  let isEmpty := (← get).tokens.isEmpty || (← sees [.documentStart, .documentEnd])
  let root ← if isMarked && isEmpty then pure .empty else node fuel true false
  finish
  return root

end NodeReader

/-- The document with these tokens, if they nest and are only one document. -/
def Node.ofTokens? (tokens : List Token) : Option Node :=
  (NodeReader.document (3 * tokens.length + 3) |>.run' { tokens })

end PolicyLint.Yaml
