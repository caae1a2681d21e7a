import PluginResolution.Text.Utf8
import PluginResolution.Url.Punycode

/-!
Domain names in ASCII. Letters are compared without case, so each character first becomes the one
it is read as; a label that still leaves ASCII is written in punycode after the mark `xn--`. The
scripts with two cases that are known here are Latin, Greek, Cyrillic and Armenian.
-/
namespace PluginResolution.Url.Domain

def shifted (c : Char) (n : Nat) : List Char :=
  [Char.ofNat (c.toNat + n)]

/-- The blocks in which upper and lower case alternate, an upper case letter first. -/
def alternates (n : Nat) : Bool :=
  (0x100 ≤ n && n ≤ 0x12F) || (0x134 ≤ n && n ≤ 0x137) || (0x139 ≤ n && n ≤ 0x13E) ||
    (0x141 ≤ n && n ≤ 0x148) || (0x14A ≤ n && n ≤ 0x177) || (0x179 ≤ n && n ≤ 0x17E) ||
    (0x460 ≤ n && n ≤ 0x481) || (0x48A ≤ n && n ≤ 0x4BF) || (0x4D0 ≤ n && n ≤ 0x52F) ||
    (0x1E00 ≤ n && n ≤ 0x1E95) || (0x1EA0 ≤ n && n ≤ 0x1EFF)

def oddUpper (n : Nat) : Bool :=
  (0x139 ≤ n && n ≤ 0x148) || (0x179 ≤ n && n ≤ 0x17E)

def isDropped (n : Nat) : Bool :=
  [0xAD, 0x34F, 0x200B, 0x2060, 0x2064, 0xFEFF].contains n || (0x180B ≤ n && n ≤ 0x180D) ||
    (0xFE00 ≤ n && n ≤ 0xFE0F)

def isForbidden (n : Nat) : Bool :=
  (0x80 ≤ n && n ≤ 0x9F) || n == 0x1680 || (0x200C ≤ n && n ≤ 0x200F) ||
    (0x2028 ≤ n && n ≤ 0x202E) || (0x2061 ≤ n && n ≤ 0x2063) || (0x2065 ≤ n && n ≤ 0x206F) ||
    (0xE000 ≤ n && n ≤ 0xF8FF) || (0xFDD0 ≤ n && n ≤ 0xFDEF) || (0xFFF0 ≤ n && n ≤ 0xFFFF) ||
    n ≥ 0xE0000 || n % 0x10000 ≥ 0xFFFE

def isSpace (n : Nat) : Bool :=
  n == 0xA0 || (0x2000 ≤ n && n ≤ 0x200A) || n == 0x202F || n == 0x205F || n == 0x3000

def lowerAscii (c : Char) : Char :=
  if 'A' ≤ c ∧ c ≤ 'Z' then Char.ofNat (c.toNat + 32) else c

def read? (c : Char) : Option (List Char) :=
  let n := c.toNat
  if n < 0x80 then some [lowerAscii c]
  else if isDropped n then some []
  else if isForbidden n then none
  else if isSpace n then some [' ']
  else if n == 0x3002 || n == 0xFF0E || n == 0xFF61 then some ['.']
  else if 0xFF01 ≤ n && n ≤ 0xFF5E then some [lowerAscii (Char.ofNat (n - 0xFEE0))]
  else if [0xA8, 0xAF, 0xB4, 0xB8].contains n then none
  else if n == 0xAA then some ['a']
  else if n == 0xBA then some ['o']
  else if n == 0xB2 || n == 0xB3 then some [Char.ofNat (n - 0xB0 + 48)]
  else if n == 0xB9 then some ['1']
  else if n == 0xB5 then some ['μ']
  else if 0xC0 ≤ n && n ≤ 0xDE && n != 0xD7 then some (shifted c 32)
  else if n == 0x130 then some ['i', Char.ofNat 0x307]
  else if n == 0x132 || n == 0x133 then some ['i', 'j']
  else if n == 0x178 then some ['ÿ']
  else if n == 0x17F then some ['s']
  else if n == 0x1E9E then some ['ß']
  else if alternates n then
    some (if (n % 2 == 1) == oddUpper n then shifted c 1 else [c])
  else if n == 0x386 then some ['ά']
  else if 0x388 ≤ n && n ≤ 0x38A then some (shifted c 37)
  else if n == 0x38C then some ['ό']
  else if n == 0x38E || n == 0x38F then some (shifted c 63)
  else if 0x391 ≤ n && n ≤ 0x3AB && n != 0x3A2 then some (shifted c 32)
  else if 0x400 ≤ n && n ≤ 0x40F then some (shifted c 80)
  else if 0x410 ≤ n && n ≤ 0x42F then some (shifted c 32)
  else if 0x531 ≤ n && n ≤ 0x556 then some (shifted c 48)
  else some [c]

def isMark (c : Char) : Bool :=
  let n := c.toNat
  (0x300 ≤ n && n ≤ 0x36F) || (0x483 ≤ n && n ≤ 0x489) || (0x20D0 ≤ n && n ≤ 0x20F0)

def isProper (label : List Char) : Bool :=
  !label.all Punycode.isAscii && label.all (fun c => read? c == some [c]) &&
    !(label.head?.any isMark)

def label? (label : List Char) : Option (List Char) :=
  match label with
  | 'x' :: 'n' :: '-' :: '-' :: written => do
    let decoded ← if written.all Punycode.isAscii then Punycode.decode written else none
    if isProper decoded then some label else none
  | _ =>
    if label.all Punycode.isAscii then some label
    else if isProper label then some ("xn--".toList ++ Punycode.encode label)
    else none

def isDenied (c : Char) : Bool :=
  c.toNat ≤ 0x20 || c.toNat == 0x7F ||
    ['%', '#', '/', ':', '<', '>', '?', '@', '[', '\\', ']', '^', '|'].contains c

def ascii? (bytes : List UInt8) : Option (List Char) := do
  let text ← Text.ofUtf8? bytes
  let read := (← text.toList.mapM read?).flatten
  let labels ← (List.splitOn '.' read).mapM label?
  let name := ['.'].intercalate labels
  if name.any isDenied then none else some name

end PluginResolution.Url.Domain
