import PluginResolution.Text.Numeral

namespace PluginResolution.Yaml

def isAllowed (c : Char) : Bool :=
  let n := c.toNat
  n == 9 || n == 10 || n == 13 || (0x20 ≤ n && n ≤ 0x7E) || n == 0x85 ||
    (0xA0 ≤ n && n ≤ 0xD7FF) || (0xE000 ≤ n && n ≤ 0xFFFD) || 0x10000 ≤ n

def isBreak (c : Char) : Bool :=
  let n := c.toNat
  n == 10 || n == 13 || n == 0x85 || n == 0x2028 || n == 0x2029

def isBlank (c : Char) : Bool :=
  c == ' ' || c == '\t'

def isWord (c : Char) : Bool :=
  Text.isDigit c || ('a' ≤ c && c ≤ 'z') || ('A' ≤ c && c ≤ 'Z') || c == '-' || c == '_'

structure Cursor where
  rest : List Char
  index : Nat := 0
  line : Nat := 0
  column : Nat := 0
  deriving DecidableEq, Repr

namespace Cursor

def start (text : String) : Cursor :=
  { rest := text.toList }

def peek? (c : Cursor) : Option Char :=
  c.rest.head?

def peekAt? (c : Cursor) (n : Nat) : Option Char :=
  c.rest[n]?

def sees (c : Cursor) (ch : Char) : Bool :=
  c.rest.head? == some ch

def atEnd (c : Cursor) : Bool :=
  c.rest.isEmpty

def seesThat (c : Cursor) (p : Char → Bool) : Bool :=
  c.rest.head?.any p

def atBreak (c : Cursor) : Bool :=
  c.seesThat isBreak

def atBlank (c : Cursor) : Bool :=
  c.seesThat isBlank

/-- A blank, a line break or the end stands `n` characters ahead. -/
def spacedAt (c : Cursor) (n : Nat) : Bool :=
  match c.rest[n]? with
  | none => true
  | some ch => isBlank ch || isBreak ch

def atLineEnd (c : Cursor) : Bool :=
  c.atEnd || c.atBreak

def atSpace (c : Cursor) : Bool :=
  c.spacedAt 0

def skip (c : Cursor) (n : Nat) : Cursor :=
  { c with
    rest := c.rest.drop n
    index := c.index + n
    column := c.column + n }

def skipWhile (c : Cursor) (p : Char → Bool) : Cursor :=
  c.skip (c.rest.takeWhile p).length

def run (c : Cursor) (p : Char → Bool) : List Char :=
  c.rest.takeWhile p

def skipBreak (c : Cursor) : Cursor :=
  match c.rest with
  | '\r' :: '\n' :: r => { rest := r, index := c.index + 2, line := c.line + 1 }
  | ch :: r =>
    if isBreak ch then { rest := r, index := c.index + 1, line := c.line + 1 } else c
  | [] => c

/-- What a line break reads as: a line feed, but the separators of lines and paragraphs are
kept. -/
def breakText (c : Cursor) : List Char :=
  match c.rest with
  | ch :: _ =>
    if ch.toNat == 0x2028 || ch.toNat == 0x2029 then [ch]
    else if isBreak ch then ['\n']
    else []
  | [] => []

/-- A line of three hyphens or three points, perhaps with more behind a blank. -/
def atDocumentMark (c : Cursor) : Bool :=
  c.column == 0 &&
    (c.rest.take 3 == ['-', '-', '-'] || c.rest.take 3 == ['.', '.', '.']) && c.spacedAt 3

def skipLine (c : Cursor) : Cursor :=
  c.skipWhile (!isBreak ·)

end Cursor

end PluginResolution.Yaml
