import PluginResolution.Yaml.Token.Lexer

namespace PluginResolution.Yaml

structure Properties where
  anchor : Option Nat := none
  tag : Option String := none
  deriving DecidableEq, Repr

inductive Node where
  | alias (anchor : Nat)
  | scalar (p : Properties) (plain : Bool) (text : String)
  | sequence (p : Properties) (items : List Node)
  | mapping (p : Properties) (entries : List (Node × Node))

def Node.absent : Node :=
  .scalar {} true ""

structure Reading where
  tokens : List Token
  /-- Names of anchors with their numbers, the last one first. -/
  anchors : List (String × Nat) := []
  handles : List (String × String) := []

namespace Reading

abbrev Reader (α : Type) := StateT Reading Option α

def peek? : Reader (Option Token) := do
  return (← get).tokens.head?

def atEndOr (ts : List Token) : Reader Bool := do
  match ← peek? with
  | none => return true
  | some t => return ts.contains t

def drop : Reader Unit :=
  modify fun s => { s with tokens := s.tokens.tail }

def accept (t : Token) : Reader Bool := do
  if (← peek?) == some t then
    drop
    return true
  else return false

def expect (t : Token) : Reader Unit := do
  if !(← accept t) then failure

/-- Gives a new number to the name: how many names are known. -/
def define (name : String) : Reader Nat := do
  let s ← get
  let n := s.anchors.map (·.1) |>.eraseDups.length
  set { s with anchors := (name, n) :: s.anchors }
  return n

def number (name : String) : Reader Nat := do
  match (← get).anchors.lookup name with
  | some n => return n
  | none => failure

def resolveTag (handle suffix : String) : Reader String := do
  if handle = "" then return suffix
  else match (← get).handles.lookup handle with
    | some front => return front ++ suffix
    | none => failure

/-- Reads one anchor, if there is one; its number is given when the node is known to follow. -/
def anchorName? : Reader (Option String) := do
  match ← peek? with
  | some (.anchor name) =>
    drop
    return some name
  | _ => return none

def tagText? : Reader (Option String) := do
  match ← peek? with
  | some (.tag handle suffix) =>
    drop
    return some (← resolveTag handle suffix)
  | _ => return none

def properties : Reader Properties := do
  let anchor ← anchorName?
  let tag ← tagText?
  let anchor ← if anchor.isNone && tag.isSome then anchorName? else pure anchor
  match anchor with
  | some name => return { anchor := some (← define name), tag }
  | none => return { tag }

/-- The tag of a scalar; an exclamation mark alone is none. -/
def Properties.ofScalar (p : Properties) : Properties :=
  { p with tag := p.tag.filter (· ≠ "!") }

mutual

/-- Reads a node. In a block, `indentless` allows a sequence whose entries stand at the column of
the mapping around it. The first argument bounds the work. -/
def node : Nat → (block indentless : Bool) → Reader Node
  | 0, _, _ => failure
  | fuel + 1, block, indentless => do
    match ← peek? with
    | some (.alias name) =>
      drop
      return .alias (← number name)
    | _ =>
      let p ← properties
      match ← peek? with
      | some (.scalar plain text) =>
        drop
        return .scalar (Properties.ofScalar p) plain text
      | some .flowSequenceStart =>
        drop
        return .sequence p (← flowItems fuel true)
      | some .flowMappingStart =>
        drop
        return .mapping p (← flowEntries fuel true)
      | t =>
        if indentless && t == some .blockEntry then
          return .sequence p (← indentlessItems fuel)
        else if block && t == some .blockSequenceStart then
          drop
          return .sequence p (← blockItems fuel)
        else if block && t == some .blockMappingStart then
          drop
          return .mapping p (← blockEntries fuel)
        -- with an anchor or a tag the content may be left out
        else if p == {} then failure
        else return .scalar p true ""

def blockItems : Nat → Reader (List Node)
  | 0 => failure
  | fuel + 1 => do
    if ← accept .blockEntry then
      let absent ← atEndOr [.blockEntry, .blockEnd]
      let item ← if absent then pure .absent else node fuel true false
      return item :: (← blockItems fuel)
    else
      expect .blockEnd
      return []

def indentlessItems : Nat → Reader (List Node)
  | 0 => failure
  | fuel + 1 => do
    if ← accept .blockEntry then
      let absent ← atEndOr [.blockEntry, .key, .value, .blockEnd]
      let item ← if absent then pure .absent else node fuel true false
      return item :: (← indentlessItems fuel)
    else return []

def blockEntries : Nat → Reader (List (Node × Node))
  | 0 => failure
  | fuel + 1 => do
    if ← accept .key then
      let key ← blockPart fuel
      let value ← if ← accept .value then blockPart fuel else pure .absent
      return (key, value) :: (← blockEntries fuel)
    else
      expect .blockEnd
      return []

def blockPart : Nat → Reader Node
  | 0 => failure
  | fuel + 1 => do
    if ← atEndOr [.key, .value, .blockEnd] then return .absent else node fuel true true

def flowItems : Nat → (first : Bool) → Reader (List Node)
  | 0, _ => failure
  | fuel + 1, first => do
    if ← accept .flowSequenceEnd then return []
    else
      if !first then expect .flowEntry
      -- a comma may stand before the end
      if ← accept .flowSequenceEnd then return []
      else
        let item ← if ← accept .key then flowPair fuel else node fuel false false
        return item :: (← flowItems fuel false)

/-- Reads a mapping of one entry inside a sequence in brackets. A key that is not written takes the
token behind its mark with it. -/
def flowPair : Nat → Reader Node
  | 0 => failure
  | fuel + 1 => do
    let absent ← atEndOr [.value, .flowEntry, .flowSequenceEnd]
    let key ← if absent then (do drop; pure .absent) else node fuel false false
    let value ← if ← accept .value then
        if ← atEndOr [.flowEntry, .flowSequenceEnd] then pure .absent else node fuel false false
      else pure .absent
    return .mapping {} [(key, value)]

def flowEntries : Nat → (first : Bool) → Reader (List (Node × Node))
  | 0, _ => failure
  | fuel + 1, first => do
    if ← accept .flowMappingEnd then return []
    else
      if !first then expect .flowEntry
      if ← accept .flowMappingEnd then return []
      else
        let entry ← flowEntry fuel
        return entry :: (← flowEntries fuel false)

def flowEntry : Nat → Reader (Node × Node)
  | 0 => failure
  | fuel + 1 => do
    if ← accept .key then
      let absent ← atEndOr [.value, .flowEntry, .flowMappingEnd]
      let key ← if absent then pure .absent else node fuel false false
      if ← accept .value then
        let absent ← atEndOr [.flowEntry, .flowMappingEnd]
        return (key, ← if absent then pure .absent else node fuel false false)
      else return (key, .absent)
    else return (← node fuel false false, .absent)

end

/-! ## Documents -/

def usualHandles : List (String × String) :=
  [("!", "!"), ("!!", "tag:yaml.org,2002:")]

/-- Reads the directives before a document. Each may be given once, and the version is 1.1 or
1.2. -/
def directives : Nat → (versioned : Bool) → Reader Unit
  | 0, _ => failure
  | fuel + 1, versioned => do
    match ← peek? with
    | some (.versionDirective major minor) =>
      if versioned || major ≠ 1 || (minor ≠ 1 && minor ≠ 2) then failure
      drop
      directives fuel true
    | some (.tagDirective handle front) =>
      let s ← get
      if s.handles.any (·.1 = handle) then failure
      set { s with handles := s.handles ++ [(handle, front)] }
      drop
      directives fuel versioned
    | _ => modify fun s => { s with handles := s.handles ++ usualHandles }

def dropEnds : Nat → Reader Unit
  | 0 => return ()
  | fuel + 1 => do
    if ← accept .documentEnd then dropEnds fuel

def atDocumentStart : Reader Bool := do
  match ← peek? with
  | some (.versionDirective ..) => return true
  | some (.tagDirective ..) => return true
  | some .documentStart => return true
  | _ => return false

def document : Reader (Option Node) := do
  let size := (← get).tokens.length
  if size = 0 then return none
  let explicit ← atDocumentStart
  directives (size + 1) false
  if explicit then expect .documentStart
  let absent ← if explicit then
      pure ((← atEndOr [.documentEnd]) || (← atDocumentStart))
    else pure false
  let root ← if absent then pure .absent else node (4 * size + 8) true false
  dropEnds size
  match ← peek? with
  | none => return some root
  | some _ => failure

end Reading

/-- The document of a text: `none` for a text that is not well formed, `some none` for one without a
document. -/
def document? (text : String) : Option (Option Node) := do
  return (← Reading.document.run { tokens := ← tokens? text }).1

end PluginResolution.Yaml
