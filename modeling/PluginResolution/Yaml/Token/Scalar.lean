import PluginResolution.Yaml.Token.Basic

/-!
Scalars as they are written: plain, quoted, and as blocks of lines. Between two words of a plain or
quoted scalar, blanks stand for themselves as long as no line is broken; one line break reads as a
space, and further ones stand for themselves.
-/
namespace PluginResolution.Yaml.Token

structure Gap where
  blanks : List Char := []
  broken : Bool := false
  firstBreak : List Char := []
  furtherBreaks : List Char := []

def Gap.text (g : Gap) : List Char :=
  if !g.broken then g.blanks
  else if g.firstBreak = ['\n'] then
    if g.furtherBreaks.isEmpty then [' '] else g.furtherBreaks
  else g.firstBreak ++ g.furtherBreaks

/-- Reads a gap, in which a tab may not stand left of a column on a new line. -/
def readGap (column : Nat) : Nat → Gap → Cursor → Option (Gap × Cursor)
  | 0, g, c => some (g, c)
  | fuel + 1, g, c =>
    if c.atBlank then
      if g.broken then
        if c.column < column && c.sees '\t' then none
        else readGap column fuel g (c.skip 1)
      else readGap column fuel { g with blanks := g.blanks ++ c.rest.take 1 } (c.skip 1)
    else if c.atBreak then
      let g := if g.broken then { g with furtherBreaks := g.furtherBreaks ++ c.breakText }
        else { broken := true, firstBreak := c.breakText }
      readGap column fuel g c.skipBreak
    else some (g, c)

/-! ## Plain scalars -/

def isFlowIndicator (c : Char) : Bool :=
  c == ',' || c == '[' || c == ']' || c == '\x7b' || c == '\x7d'

def endsWord : List Char → Bool
  | [] => true
  | c :: _ => isBlank c || isBreak c

/-- The word that begins here; `none` where a colon inside brackets has a mark behind it. -/
def plainWord (inFlow : Bool) : List Char → Option (List Char)
  | [] => some []
  | c :: r =>
    if isBlank c || isBreak c then some []
    else if inFlow && c == ':' && r.head?.any (fun d => isFlowIndicator d || d == '?') then none
    else if c == ':' && endsWord r then some []
    else if inFlow && isFlowIndicator c then some []
    else (plainWord inFlow r).map (c :: ·)

/-- A plain scalar: its text, whether a line was broken behind its last word, and the place where
the reading goes on. -/
structure Plain where
  text : List Char
  broken : Bool
  after : Cursor

/-- Reads the words of a plain scalar, which goes on as long as its lines do not begin left of the
column. -/
def readPlainFrom (inFlow : Bool) (column : Nat) : Nat → List Char → Gap → Cursor → Option Plain
  | 0, text, g, c => some ⟨text, g.broken, c⟩
  | fuel + 1, text, g, c =>
    if c.atDocumentMark || c.sees '#' then some ⟨text, g.broken, c⟩
    else do
      let word ← plainWord inFlow c.rest
      -- the gap counts only once a word follows it
      let (text, g) := if word.isEmpty then (text, g) else (text ++ g.text ++ word, {})
      let c := c.skip word.length
      if c.atBlank || c.atBreak then
        let (g, c) ← readGap column (c.rest.length + 1) g c
        if !inFlow && c.column < column then some ⟨text, g.broken, c⟩
        else readPlainFrom inFlow column fuel text g c
      else some ⟨text, g.broken, c⟩

def readPlain (inFlow : Bool) (column : Nat) (c : Cursor) : Option Plain :=
  readPlainFrom inFlow column (c.rest.length + 1) [] {} c

/-! ## Quoted scalars -/

structure Word where
  text : List Char
  /-- The word ends with a backslash before a line break. -/
  continued : Bool := false
  rest : List Char

def Word.push (w : Word) (c : Char) : Word :=
  { w with text := c :: w.text }

/-- The word that begins here between single quotes; a doubled quote is one. -/
def singleWord : List Char → Word
  | [] => ⟨[], false, []⟩
  | c :: r =>
    if c == '\'' then
      match r with
      | '\'' :: r' => (singleWord r').push '\''
      | _ => ⟨[], false, c :: r⟩
    else if isBlank c || isBreak c then ⟨[], false, c :: r⟩
    else (singleWord r).push c

def escape? : Char → Option Char
  | '0' => some '\x00'
  | 'a' => some '\x07'
  | 'b' => some '\x08'
  | 't' => some '\t'
  | '\t' => some '\t'
  | 'n' => some '\n'
  | 'v' => some '\x0b'
  | 'f' => some '\x0c'
  | 'r' => some '\r'
  | 'e' => some '\x1b'
  | ' ' => some ' '
  | '"' => some '"'
  | '/' => some '/'
  | '\\' => some '\\'
  | 'N' => some '\u0085'
  | '_' => some '\u00a0'
  | 'L' => some '\u2028'
  | 'P' => some '\u2029'
  | _ => none

def coded? (digits : List Char) : Option Char := do
  let n ← digits.foldlM (fun n d => do return n * 16 + (← Text.hexValue? d)) 0
  if n.isValidChar then some (Char.ofNat n) else none

def doubleWord : List Char → Option Word
  | [] => some ⟨[], false, []⟩
  | c :: r =>
    if c == '"' || isBlank c || isBreak c then some ⟨[], false, c :: r⟩
    else if c != '\\' then (doubleWord r).map (·.push c)
    else
      match r with
      | [] => none
      | 'x' :: d1 :: d2 :: r => do
        let e ← coded? [d1, d2]
        return (← doubleWord r).push e
      | 'u' :: d1 :: d2 :: d3 :: d4 :: r => do
        let e ← coded? [d1, d2, d3, d4]
        return (← doubleWord r).push e
      | 'U' :: d1 :: d2 :: d3 :: d4 :: d5 :: d6 :: d7 :: d8 :: r => do
        let e ← coded? [d1, d2, d3, d4, d5, d6, d7, d8]
        return (← doubleWord r).push e
      | e :: r' =>
        -- the break stays in the rest, for the gap behind the word
        if isBreak e then some ⟨[], true, r⟩
        else do
          let e ← escape? e
          return (← doubleWord r').push e

def quotedWord (double : Bool) (cs : List Char) : Option Word :=
  if double then doubleWord cs else some (singleWord cs)

def readQuotedFrom (double : Bool) : Nat → List Char → Cursor → Option (List Char × Cursor)
  | 0, _, _ => none
  | fuel + 1, text, c =>
    if c.atDocumentMark || c.atEnd then none
    else do
      let word ← quotedWord double c.rest
      let text := text ++ word.text
      let c := c.skip (c.rest.length - word.rest.length)
      let c := if word.continued then c.skipBreak else c
      if c.sees (if double then '"' else '\'') then some (text, c.skip 1)
      else
        let (g, c) ← readGap 0 (c.rest.length + 1) { broken := word.continued } c
        readQuotedFrom double fuel (text ++ g.text) c

def readQuoted (double : Bool) (c : Cursor) : Option (List Char × Cursor) :=
  readQuotedFrom double (c.rest.length + 1) [] (c.skip 1)

/-! ## Block scalars -/

inductive Chomping where
  | clip
  | strip
  | keep
  deriving DecidableEq

structure BlockHeader where
  chomping : Chomping := .clip
  /-- By how much the block is indented, or zero if its first line tells. -/
  indent : Nat := 0

def readChomping (c : Cursor) : Chomping × Cursor :=
  if c.sees '+' then (.keep, c.skip 1)
  else if c.sees '-' then (.strip, c.skip 1)
  else (.clip, c)

/-- Reads a digit, which may not be zero. -/
def readIndent (c : Cursor) : Option (Nat × Cursor) :=
  match c.peek? with
  | some d =>
    if d == '0' then none
    else if Text.isDigit d then some (d.toNat - 48, c.skip 1)
    else some (0, c)
  | none => some (0, c)

def readBlockHeader (c : Cursor) : Option (BlockHeader × Cursor) := do
  let (chomping, c) := readChomping c
  let (indent, c) ← readIndent c
  let (chomping, c) := if chomping = .clip && indent ≠ 0 then readChomping c else (chomping, c)
  let c := c.skipWhile isBlank
  let c := if c.sees '#' then c.skipLine else c
  if c.atLineEnd then some (⟨chomping, indent⟩, c.skipBreak) else none

structure BlockBreaks where
  breaks : List Char
  indent : Nat
  after : Cursor

/-- Reads empty lines and the indentation behind them. When the block's column is not known, it is
the deepest one seen here, but not left of `least`. -/
def readBlockBreaks (least indent : Nat) : Nat → Nat → List Char → Cursor → Option BlockBreaks
  | 0, _, _, _ => none
  | fuel + 1, deepest, breaks, c =>
    let spaces := (c.run (· == ' ')).length
    -- beyond the block's column, spaces belong to the line
    let c := c.skip (if indent = 0 then spaces else min spaces (indent - c.column))
    let deepest := max deepest c.column
    if (indent = 0 || c.column < indent) && c.sees '\t' then none
    else if c.atBreak then
      readBlockBreaks least indent fuel deepest (breaks ++ c.breakText) c.skipBreak
    else
      some ⟨breaks, if indent = 0 then max 1 (max deepest least) else indent, c⟩

structure BlockLines where
  text : List Char := []
  lastBreak : List Char := []
  breaks : List Char := []
  blank : Bool := false

/-- Adds the line that begins here. A folded block joins lines that do not begin with a blank. -/
def BlockLines.push (b : BlockLines) (folded : Bool) (c : Cursor) : BlockLines :=
  let joined := folded && b.lastBreak == ['\n'] && !b.blank && !c.atBlank
  let between :=
    if !joined then b.lastBreak else if b.breaks.isEmpty then [' '] else []
  let line := c.run (!isBreak ·)
  { text := b.text ++ between ++ b.breaks ++ line
    lastBreak := (c.skip line.length).breakText
    blank := c.atBlank }

def BlockLines.finish (b : BlockLines) : Chomping → List Char
  | .strip => b.text
  | .clip => b.text ++ b.lastBreak
  | .keep => b.text ++ b.lastBreak ++ b.breaks

def readBlockLines (folded : Bool) (indent : Nat) :
    Nat → BlockLines → Cursor → Option (BlockLines × Cursor)
  | 0, b, c => some (b, c)
  | fuel + 1, b, c =>
    if c.column == indent && !c.atEnd then do
      let b := b.push folded c
      let c := c.skipLine.skipBreak
      let next ← readBlockBreaks 0 indent (c.rest.length + 1) 0 [] c
      readBlockLines folded indent fuel { b with breaks := next.breaks } next.after
    else some (b, c)

/-- Reads a block scalar from its sign on; `level` is one more than the column of the block around
it, or zero outside of any. -/
def readBlock (folded : Bool) (level : Nat) (c : Cursor) : Option (List Char × Cursor) := do
  let (header, c) ← readBlockHeader (c.skip 1)
  let indent := if header.indent = 0 then 0 else level - 1 + header.indent
  let first ← readBlockBreaks level indent (c.rest.length + 1) 0 [] c
  let (lines, c) ← readBlockLines folded first.indent (c.rest.length + 1) { breaks := first.breaks }
    first.after
  return (lines.finish header.chomping, c)

end PluginResolution.Yaml.Token
