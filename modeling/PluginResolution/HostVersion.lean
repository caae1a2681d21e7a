import PluginResolution.Text.Blank
import PluginResolution.Text.Numeral

namespace PluginResolution

structure HostVersion where
  text : String
  major : UInt32
  minor : UInt32
  deriving DecidableEq, Repr

namespace HostVersion

structure Invalid where
  given : String
  deriving DecidableEq, Repr

def Invalid.message (e : Invalid) : String :=
  "Invalid host version '" ++ e.given ++ "': expected <major>.<minor>[.<patch>][-qualifier]"

/-- One number of a version: decimal digits below 2^32, perhaps with a plus sign in front. -/
def number? (segment : List Char) : Option UInt32 :=
  (Text.natural? UInt32.size segment).map UInt32.ofNat

def numeric (trimmed : List Char) : List Char :=
  let unmarked := match trimmed with
    | 'v' :: r => r
    | _ => trimmed
  unmarked.takeWhile (· ≠ '-')

def parse? (given : String) : Option HostVersion := do
  let trimmed := Text.trim given
  match ← (List.splitOn '.' (numeric trimmed.toList)).mapM number? with
  | major :: minor :: _ => return ⟨trimmed, major, minor⟩
  | _ => none

def parse (given : String) : Except Invalid HostVersion :=
  match parse? given with
  | some h => .ok h
  | none => .error ⟨given⟩

def line (h : HostVersion) : String :=
  toString h.major.toNat ++ "." ++ toString h.minor.toNat

end HostVersion

end PluginResolution
