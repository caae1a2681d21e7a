import PluginResolution.Text.Numeral
import PluginResolution.Text.Utf8

namespace PluginResolution.Url

def isControl (c : Char) : Bool :=
  c.toNat < 0x20 || c.toNat ≥ 0x7F

def inFragment (c : Char) : Bool :=
  isControl c || [' ', '"', '<', '>', '\x60'].contains c

def inPath (c : Char) : Bool :=
  inFragment c || ['#', '?', '\x7b', '\x7d'].contains c

def inUserinfo (c : Char) : Bool :=
  inPath c || ['/', ':', ';', '=', '@', '[', '\\', ']', '^', '|'].contains c

def inQuery (c : Char) : Bool :=
  isControl c || [' ', '"', '#', '<', '>'].contains c

def inSpecialQuery (c : Char) : Bool :=
  inQuery c || c == '\''

def upperHex (n : Nat) : Char :=
  (Text.hexDigit n).toUpper

def encodeByte (b : UInt8) : List Char :=
  ['%', upperHex (b.toNat / 16), upperHex (b.toNat % 16)]

def encode (set : Char → Bool) (cs : List Char) : List Char :=
  cs.flatMap fun c => if set c then (Text.utf8 [c]).flatMap encodeByte else [c]

/-- The bytes of a text, where two hexadecimal digits after a percent sign are one byte. -/
def decode : List Char → List UInt8
  | '%' :: a :: b :: rest =>
    match Text.hexValue? a, Text.hexValue? b with
    | some m, some n => (16 * m + n).toUInt8 :: decode rest
    | _, _ => 0x25 :: decode (a :: b :: rest)
  | c :: rest => Text.utf8 [c] ++ decode rest
  | [] => []

end PluginResolution.Url
