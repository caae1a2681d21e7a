import PluginResolution.Json.Basic
import PluginResolution.Text.Numeral

namespace PluginResolution.Json

def escape (c : Char) : List Char :=
  if c = '"' then ['\\', '"']
  else if c = '\\' then ['\\', '\\']
  else if c = '\n' then ['\\', 'n']
  else if c = '\r' then ['\\', 'r']
  else if c = '\t' then ['\\', 't']
  else if c.toNat = 8 then ['\\', 'b']
  else if c.toNat = 12 then ['\\', 'f']
  else if c.toNat < 32 then
    ['\\', 'u', '0', '0', Text.hexDigit (c.toNat / 16), Text.hexDigit (c.toNat % 16)]
  else [c]

def quoted (s : String) : List Char :=
  '"' :: (s.toList.flatMap escape ++ ['"'])

def separated (sep : List Char) : List (List Char) → List Char
  | [] => []
  | [p] => p
  | p :: ps => p ++ sep ++ separated sep ps

mutual

def compactChars : Json → List Char
  | .null => ['n', 'u', 'l', 'l']
  | .natural n => Nat.toDigits 10 n
  | .text s => quoted s
  | .array items => '[' :: (separated [','] (compactItems items) ++ [']'])
  | .object fields => '\x7b' :: (separated [','] (compactFields fields) ++ ['\x7d'])

def compactItems : List Json → List (List Char)
  | [] => []
  | j :: js => compactChars j :: compactItems js

def compactFields : List (String × Json) → List (List Char)
  | [] => []
  | (k, j) :: r => (quoted k ++ ':' :: compactChars j) :: compactFields r

end

def lineBreak (level : Nat) : List Char :=
  '\n' :: List.replicate (2 * level) ' '

/-- The parts on lines of their own one level deeper; nothing between the brackets when empty. -/
def block (level : Nat) : List (List Char) → List Char
  | [] => []
  | ps => lineBreak (level + 1) ++ separated (',' :: lineBreak (level + 1)) ps ++ lineBreak level

mutual

def prettyChars (level : Nat) : Json → List Char
  | .null => ['n', 'u', 'l', 'l']
  | .natural n => Nat.toDigits 10 n
  | .text s => quoted s
  | .array items => '[' :: (block level (prettyItems (level + 1) items) ++ [']'])
  | .object fields => '\x7b' :: (block level (prettyFields (level + 1) fields) ++ ['\x7d'])

def prettyItems (level : Nat) : List Json → List (List Char)
  | [] => []
  | j :: js => prettyChars level j :: prettyItems level js

def prettyFields (level : Nat) : List (String × Json) → List (List Char)
  | [] => []
  | (k, j) :: r => (quoted k ++ ':' :: ' ' :: prettyChars level j) :: prettyFields level r

end

def compact (j : Json) : String :=
  String.ofList (compactChars j)

def pretty (j : Json) : String :=
  String.ofList (prettyChars 0 j)

end PluginResolution.Json
