import PluginResolution.Yaml.Token.Property
import PluginResolution.Yaml.Token.Scalar

/-!
Splitting a YAML text into tokens. A scalar, a collection in brackets or an alias may turn out to be
a key when a colon follows on the same line; until then its place is remembered as a candidate.
-/
namespace PluginResolution.Yaml

structure Candidate where
  /-- How many tokens stand before. -/
  place : Nat
  index : Nat
  line : Nat
  column : Nat
  /-- Only a key can stand there. -/
  required : Bool

structure Lexer where
  cursor : Cursor
  /-- The tokens so far, the last one first. -/
  tokens : List Token := []
  /-- One more than the column of the innermost block, or zero outside of any. -/
  level : Nat := 0
  outer : List Nat := []
  keyAllowed : Bool := true
  /-- The candidate of the innermost collection in brackets, or of the block. -/
  candidate : Option Candidate := none
  /-- The candidates of the collections around it, up to the block. -/
  around : List (Option Candidate) := []

namespace Lexer

def inFlow (l : Lexer) : Bool :=
  !l.around.isEmpty

def emit (l : Lexer) (t : Token) : Lexer :=
  { l with tokens := t :: l.tokens }

/-- Puts a token before those that came after the first `place` ones. -/
def emitAt (l : Lexer) (place : Nat) (t : Token) : Lexer :=
  { l with tokens := l.tokens.insertIdx (l.tokens.length - place) t }

def take (l : Lexer) (n : Nat) (t : Token) : Lexer :=
  { l.emit t with cursor := l.cursor.skip n }

def takeTo (l : Lexer) (t : Token) (c : Cursor) : Lexer :=
  { l.emit t with cursor := c }

/-! ## Blocks -/

/-- Opens a block at a column, unless the innermost one is not left of it. -/
def openBlock (l : Lexer) (column place : Nat) (t : Token) : Lexer :=
  if l.inFlow || column < l.level then l
  else { l.emitAt place t with level := column + 1, outer := l.level :: l.outer }

/-- Closes blocks, given the levels of those around, until the level is at most `limit`. -/
def closeFrom (limit : Nat) : List Nat → Lexer → Lexer
  | [], l => l
  | outer :: rest, l =>
    if limit < l.level then
      closeFrom limit rest { l.emit .blockEnd with level := outer, outer := rest }
    else l

def closeBlocks (l : Lexer) (limit : Nat) : Lexer :=
  if l.inFlow then l else closeFrom limit l.outer l

/-! ## Candidates -/

/-- The key must have ended: the place is on an earlier line or too far back. -/
def Candidate.isStale (k : Candidate) (c : Cursor) : Bool :=
  k.line < c.line || k.index + 1024 < c.index

/-- Gives a candidate up once it is stale; fails if it has to be a key. -/
def refresh? (c : Cursor) : Option Candidate → Option (Option Candidate)
  | none => some none
  | some k =>
    if !Candidate.isStale k c then some (some k) else if k.required then none else some none

def dropStale (l : Lexer) : Option Lexer := do
  return { l with
    candidate := ← refresh? l.cursor l.candidate
    around := ← l.around.mapM (refresh? l.cursor) }

def dropCandidate (l : Lexer) : Option Lexer :=
  match l.candidate with
  | some k => if k.required then none else some { l with candidate := none }
  | none => some l

def saveCandidate (l : Lexer) : Option Lexer :=
  if l.keyAllowed then do
    let l ← l.dropCandidate
    let c := l.cursor
    return { l with candidate := some {
      place := l.tokens.length
      index := c.index
      line := c.line
      column := c.column
      required := !l.inFlow && l.level == c.column + 1 } }
  else some l

/-! ## Tokens -/

/-- Steps over blanks, comments and line breaks. Where a key may begin in a block, a tab is no
blank. -/
def skipSpace : Nat → Lexer → Lexer
  | 0, l => l
  | fuel + 1, l =>
    -- only at the very start of the text, and it counts as a column
    let c := if l.cursor.index == 0 && l.cursor.sees '\ufeff' then l.cursor.skip 1 else l.cursor
    let tabs := l.inFlow || !l.keyAllowed
    let c := c.skipWhile fun ch => ch == ' ' || (tabs && ch == '\t')
    let c := if c.sees '#' then c.skipLine else c
    if c.atBreak then
      skipSpace fuel { l with cursor := c.skipBreak, keyAllowed := l.keyAllowed || !l.inFlow }
    else { l with cursor := c }

def leaveContent (l : Lexer) : Option Lexer := do
  return { ← (l.closeBlocks 0).dropCandidate with keyAllowed := false }

def takeDirective (l : Lexer) : Option Lexer := do
  let l ← l.leaveContent
  let (token, c) ← Token.readDirective (l.cursor.skip 1)
  return l.takeTo token c

def takeFlowStart (l : Lexer) (t : Token) : Option Lexer := do
  let l ← l.saveCandidate
  return { l.take 1 t with
    candidate := none, around := l.candidate :: l.around, keyAllowed := true }

def takeFlowEnd (l : Lexer) (t : Token) : Option Lexer := do
  let l ← l.dropCandidate
  let l := { l.take 1 t with keyAllowed := false }
  match l.around with
  | [] => return l
  | k :: rest => return { l with candidate := k, around := rest }

def takeFlowEntry (l : Lexer) : Option Lexer := do
  let l ← l.dropCandidate
  return { l.take 1 .flowEntry with keyAllowed := true }

def openHere (l : Lexer) (t : Token) : Option Lexer :=
  if l.inFlow then some l
  else if l.keyAllowed then some (l.openBlock l.cursor.column l.tokens.length t)
  else none

def takeBlockEntry (l : Lexer) : Option Lexer := do
  let l ← l.openHere .blockSequenceStart
  let l ← l.dropCandidate
  return { l.take 1 .blockEntry with keyAllowed := true }

def takeKey (l : Lexer) : Option Lexer := do
  let l ← l.openHere .blockMappingStart
  let l ← l.dropCandidate
  return { l.take 1 .key with keyAllowed := !l.inFlow }

/-- A colon makes the candidate a key; without one it belongs to a key that has a mark of its
own. -/
def takeValue (l : Lexer) : Option Lexer :=
  match l.candidate with
  | some k =>
    -- the key's own token goes in first, so that the block opens in front of it
    let l := (l.emitAt k.place .key).openBlock k.column k.place .blockMappingStart
    some { l.take 1 .value with candidate := none, keyAllowed := false }
  | none => do
    let l ← l.openHere .blockMappingStart
    return { l.take 1 .value with keyAllowed := !l.inFlow }

def takeNode (l : Lexer) (read : Cursor → Option (Token × Cursor)) : Option Lexer := do
  let l ← l.saveCandidate
  let (token, c) ← read l.cursor
  return { l.takeTo token c with keyAllowed := false }

def takeQuoted (l : Lexer) (double : Bool) : Option Lexer :=
  l.takeNode fun c => do
    let (text, c) ← Token.readQuoted double c
    return (.scalar false (String.ofList text), c)

def takeBlockScalar (l : Lexer) (folded : Bool) : Option Lexer := do
  let l ← l.dropCandidate
  let (text, c) ← Token.readBlock folded l.level l.cursor
  return { l.takeTo (.scalar false (String.ofList text)) c with keyAllowed := true }

def takePlain (l : Lexer) : Option Lexer := do
  let l ← l.saveCandidate
  let plain ← Token.readPlain l.inFlow l.level l.cursor
  return { l.takeTo (.scalar true (String.ofList plain.text)) plain.after with
    keyAllowed := plain.broken }

def beginsPlain (l : Lexer) (ch : Char) : Bool :=
  if ch == '-' then !(l.cursor.peekAt? 1).any isBlank
  else if ch == '?' || ch == ':' then !l.inFlow && !l.cursor.spacedAt 1
  else !isBlank ch && !isBreak ch && !",[]\x7b\x7d#&*!|>'\"%@\x60".toList.contains ch

def takeToken (l : Lexer) (ch : Char) : Option Lexer :=
  let c := l.cursor
  if c.column == 0 && ch == '%' then l.takeDirective
  else if c.atDocumentMark then do
    return (← l.leaveContent).take 3 (if ch == '-' then .documentStart else .documentEnd)
  else if ch == '[' then l.takeFlowStart .flowSequenceStart
  else if ch == '\x7b' then l.takeFlowStart .flowMappingStart
  else if ch == ']' then l.takeFlowEnd .flowSequenceEnd
  else if ch == '\x7d' then l.takeFlowEnd .flowMappingEnd
  else if ch == ',' then l.takeFlowEntry
  else if ch == '-' && c.spacedAt 1 then l.takeBlockEntry
  else if ch == '?' && (l.inFlow || c.spacedAt 1) then l.takeKey
  else if ch == ':' && (l.inFlow || c.spacedAt 1) then l.takeValue
  else if ch == '*' then
    l.takeNode fun c => (Token.readName (c.skip 1)).map fun (name, c) => (.alias name, c)
  else if ch == '&' then
    l.takeNode fun c => (Token.readName (c.skip 1)).map fun (name, c) => (.anchor name, c)
  else if ch == '!' then l.takeNode (Token.readTag l.inFlow)
  else if ch == '|' && !l.inFlow then l.takeBlockScalar false
  else if ch == '>' && !l.inFlow then l.takeBlockScalar true
  else if ch == '\'' then l.takeQuoted false
  else if ch == '"' then l.takeQuoted true
  else if l.beginsPlain ch then l.takePlain
  else none

def run : Nat → Lexer → Option (List Token)
  | 0, _ => none
  | fuel + 1, l => do
    let l ← (skipSpace (l.cursor.rest.length + 1) l).dropStale
    -- whatever comes next, blocks to the right of it have ended
    let l := l.closeBlocks (l.cursor.column + 1)
    match l.cursor.peek? with
    | some ch => run fuel (← l.takeToken ch)
    | none => return (← l.leaveContent).tokens.reverse

end Lexer

def tokens? (text : String) : Option (List Token) :=
  if text.toList.all isAllowed then
    Lexer.run (text.toList.length + 1) { cursor := .start text }
  else none

end PluginResolution.Yaml
