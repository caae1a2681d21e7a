import PluginResolution.Json.Basic
import PluginResolution.Text.Numeral

namespace PluginResolution.Json

def isSpace (c : Char) : Bool :=
  c = ' ' || c = '\n' || c = '\t' || c = '\r'

def skipSpace (cs : List Char) : List Char :=
  cs.dropWhile isSpace

inductive Piece where
  | char (c : Char)
  | high (unit : Nat)
  | low (unit : Nat)

def Piece.ofUnit (n : Nat) : Piece :=
  if 0xD800 ≤ n ∧ n ≤ 0xDBFF then .high n
  else if 0xDC00 ≤ n ∧ n ≤ 0xDFFF then .low n
  else .char (Char.ofNat n)

def assemble : List Piece → Option (List Char)
  | [] => some []
  | .char c :: r => (assemble r).map (c :: ·)
  | .high h :: .low l :: r =>
    (assemble r).map (Char.ofNat (0x10000 + (h - 0xD800) * 0x400 + (l - 0xDC00)) :: ·)
  | _ => none

def hexUnit? (a b c d : Char) : Option Nat := do
  let high := (← Text.hexValue? a) * 16 + (← Text.hexValue? b)
  let low := (← Text.hexValue? c) * 16 + (← Text.hexValue? d)
  return high * 256 + low

def simpleEscape? : Char → Option Char
  | '"' => some '"'
  | '\\' => some '\\'
  | '/' => some '/'
  | 'b' => some '\x08'
  | 'f' => some '\x0c'
  | 'n' => some '\n'
  | 'r' => some '\r'
  | 't' => some '\t'
  | _ => none

/-- Reads up to the closing quote, the opening one being already read. -/
def readPieces : List Char → Option (List Piece × List Char)
  | [] => none
  | '"' :: r => some ([], r)
  | '\\' :: 'u' :: a :: b :: c :: d :: r => do
    let unit ← hexUnit? a b c d
    let (ps, rest) ← readPieces r
    return (Piece.ofUnit unit :: ps, rest)
  | '\\' :: e :: r => do
    let c ← simpleEscape? e
    let (ps, rest) ← readPieces r
    return (.char c :: ps, rest)
  | c :: r =>
    if c.toNat < 32 ∨ c = '\\' then none
    else do
      let (ps, rest) ← readPieces r
      return (.char c :: ps, rest)

def readString (cs : List Char) : Option (Option String × List Char) := do
  let (ps, rest) ← readPieces cs
  return ((assemble ps).map String.ofList, rest)

def digitsValue (ds : List Char) : Nat :=
  ds.foldl (fun n c => 10 * n + (c.toNat - 48)) 0

def skipDigits? (cs : List Char) : Option (List Char) :=
  if (cs.head?.map Text.isDigit).getD false then some (cs.dropWhile Text.isDigit) else none

def skipFraction? : List Char → Option (List Char)
  | '.' :: r => skipDigits? r
  | cs => some cs

def skipExponent? : List Char → Option (List Char)
  | c :: r =>
    if c = 'e' ∨ c = 'E' then
      match r with
      | '+' :: r' => skipDigits? r'
      | '-' :: r' => skipDigits? r'
      | _ => skipDigits? r
    else some (c :: r)
  | [] => some []

/-- Digits without a superfluous zero in front. -/
def readDigits? (cs : List Char) : Option (Nat × List Char) :=
  match cs with
  | '0' :: r => if (r.head?.map Text.isDigit).getD false then none else some (0, r)
  | _ => do
    let rest ← skipDigits? cs
    return (digitsValue (cs.takeWhile Text.isDigit), rest)

def readNumber (cs : List Char) : Option (Syntax × List Char) := do
  let (signed, cs) := match cs with
    | '-' :: r => (true, r)
    | _ => (false, cs)
  let (n, rest) ← readDigits? cs
  let tail ← skipFraction? rest
  let tail ← skipExponent? tail
  return (if signed || tail.length != rest.length then .otherNumber else .natural n, tail)

mutual

/-- One value, spaces around it included. The first argument bounds the work. -/
def readValue : Nat → List Char → Option (Syntax × List Char)
  | 0, _ => none
  | fuel + 1, cs =>
    match skipSpace cs with
    | 'n' :: 'u' :: 'l' :: 'l' :: r => some (.null, skipSpace r)
    | 't' :: 'r' :: 'u' :: 'e' :: r => some (.boolean, skipSpace r)
    | 'f' :: 'a' :: 'l' :: 's' :: 'e' :: r => some (.boolean, skipSpace r)
    | '"' :: r => do
      let (s, rest) ← readString r
      return ((s.map Syntax.text).getD .brokenText, skipSpace rest)
    | '[' :: r => do
      match skipSpace r with
      | ']' :: r' => return (.array [], skipSpace r')
      | r' =>
        let (items, rest) ← readItems fuel r'
        return (.array items, skipSpace rest)
    | '\x7b' :: r => do
      match skipSpace r with
      | '\x7d' :: r' => return (.object [], skipSpace r')
      | r' =>
        let (fields, rest) ← readFields fuel r'
        return (.object fields, skipSpace rest)
    | cs' => do
      let (n, rest) ← readNumber cs'
      return (n, skipSpace rest)

def readItems : Nat → List Char → Option (List Syntax × List Char)
  | 0, _ => none
  | fuel + 1, cs => do
    let (item, rest) ← readValue fuel cs
    match rest with
    | ',' :: r =>
      let (items, rest) ← readItems fuel r
      return (item :: items, rest)
    | ']' :: r => return ([item], r)
    | _ => none

def readFields : Nat → List Char → Option (List (Option String × Syntax) × List Char)
  | 0, _ => none
  | fuel + 1, cs => do
    match skipSpace cs with
    | '"' :: r =>
      let (key, rest) ← readString r
      match skipSpace rest with
      | ':' :: r =>
        let (value, rest) ← readValue fuel r
        match rest with
        | ',' :: r =>
          let (fields, rest) ← readFields fuel r
          return ((key, value) :: fields, rest)
        | '\x7d' :: r => return ([(key, value)], r)
        | _ => none
      | _ => none
    | _ => none

end

def read (s : String) : Option Syntax :=
  match readValue (s.toList.length + 1) s.toList with
  | some (v, []) => some v
  | _ => none

end PluginResolution.Json
