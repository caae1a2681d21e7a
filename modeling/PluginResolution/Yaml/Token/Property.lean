import PluginResolution.Text.Numeral
import PluginResolution.Yaml.Token.Basic

namespace PluginResolution.Yaml.Token

def isAddress (bracketed : Bool) (c : Char) : Bool :=
  isWord c || ";/?:@&=+$.%!~*'()".toList.contains c || (bracketed && ",[]".toList.contains c)

/-- A part of an address: a character, or an octet written with a percent sign. -/
inductive Piece where
  | char (c : Char)
  | octet (n : Nat)

def pieces (bracketed : Bool) : List Char → Option (List Piece × List Char)
  | [] => some ([], [])
  | c :: r =>
    if !isAddress bracketed c then some ([], c :: r)
    else if c = '%' then
      match r with
      | a :: b :: r' => do
        let n := (← Text.hexValue? a) * 16 + (← Text.hexValue? b)
        let (ps, rest) ← pieces bracketed r'
        return (.octet n :: ps, rest)
      | _ => none
    else do
      let (ps, rest) ← pieces bracketed r
      return (.char c :: ps, rest)

def continuation? : Piece → Option Nat
  | .octet n => if n / 64 = 2 then some (n % 64) else none
  | .char _ => none

def assemble : List Piece → Option (List Char)
  | [] => some []
  | .char c :: r => (assemble r).map (c :: ·)
  | .octet n :: r =>
    if n < 0x80 then (assemble r).map (Char.ofNat n :: ·)
    else if n / 32 = 6 then
      match r with
      | a :: r => do
        let code := n % 32 * 64 + (← continuation? a)
        (assemble r).map (Char.ofNat code :: ·)
      | _ => none
    else if n / 16 = 14 then
      match r with
      | a :: b :: r => do
        let code := (n % 16 * 64 + (← continuation? a)) * 64 + (← continuation? b)
        (assemble r).map (Char.ofNat code :: ·)
      | _ => none
    else if n / 8 = 30 then
      match r with
      | a :: b :: d :: r => do
        let code := ((n % 8 * 64 + (← continuation? a)) * 64 + (← continuation? b)) * 64 +
          (← continuation? d)
        (assemble r).map (Char.ofNat code :: ·)
      | _ => none
    else none

def readAddress (bracketed : Bool) (c : Cursor) : Option (List Char × Cursor) := do
  let (ps, rest) ← pieces bracketed c.rest
  return (← assemble ps, c.skip (c.rest.length - rest.length))

def readName (c : Cursor) : Option (String × Cursor) :=
  let name := c.run isWord
  let after := c.skip name.length
  if name.isEmpty || !(after.atSpace || after.seesThat "?:,]\x7d%@\x60".toList.contains) then none
  else some (String.ofList name, after)

/-- An exclamation mark, word characters, and another exclamation mark if there is one. -/
def readHandle (c : Cursor) : Option (List Char × Cursor) :=
  if !c.sees '!' then none
  else
    let word := (c.skip 1).run isWord
    let after := c.skip (1 + word.length)
    if after.sees '!' then some ('!' :: word ++ ['!'], after.skip 1)
    else some ('!' :: word, after)

def readTagParts (c : Cursor) : Option (Token × Cursor) :=
  if c.peekAt? 1 = some '<' then do
    let (address, after) ← readAddress true (c.skip 2)
    if address.isEmpty || !after.sees '>' then none
    else return (.tag "" (String.ofList address), after.skip 1)
  else do
    let (handle, after) ← readHandle c
    let (address, last) ← readAddress false after
    if 2 ≤ handle.length && handle.getLast? = some '!' then
      if address.isEmpty then none
      else return (.tag (String.ofList handle) (String.ofList address), last)
    else
      match handle.tail ++ address with
      | [] => return (.tag "" "!", last)
      | suffix => return (.tag "!" (String.ofList suffix), last)

/-- Reads a tag, which a space or, inside brackets, a comma ends. -/
def readTag (inFlow : Bool) (c : Cursor) : Option (Token × Cursor) := do
  let (token, after) ← readTagParts c
  if after.atSpace || (inFlow && after.sees ',') then return (token, after) else none

def readVersionNumber (c : Cursor) : Option (Nat × Cursor) := do
  let digits := c.run Text.isDigit
  if 9 < digits.length then none
  else return (← Text.digitsNatural? digits, c.skip digits.length)

def readDirectiveParts (c : Cursor) : Option (Token × Cursor) := do
  let word := c.run isWord
  let after := c.skip word.length
  if word.isEmpty || !after.atSpace then none
  else if word = ['Y', 'A', 'M', 'L'] then
    let (major, after) ← readVersionNumber (after.skipWhile isBlank)
    if !after.sees '.' then none
    else
      let (minor, after) ← readVersionNumber (after.skip 1)
      return (.versionDirective major minor, after)
  else if word = ['T', 'A', 'G'] then
    let (handle, after) ← readHandle (after.skipWhile isBlank)
    if (handle.getLast? != some '!') || !after.atBlank then none
    else
      let (address, after) ← readAddress true (after.skipWhile isBlank)
      if address.isEmpty || !after.atSpace then none
      else return (.tagDirective (String.ofList handle) (String.ofList address), after)
  else none

/-- Reads a directive with the rest of its line, where only a comment may stand. -/
def readDirective (c : Cursor) : Option (Token × Cursor) := do
  let (token, after) ← readDirectiveParts c
  let after := after.skipWhile isBlank
  let after := if after.sees '#' then after.skipLine else after
  if after.atLineEnd then return (token, after.skipBreak) else none

end PluginResolution.Yaml.Token
