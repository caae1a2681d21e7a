import PluginResolution.Binary64
import PluginResolution.Text.Numeral

namespace PluginResolution.Yaml

inductive Scalar where
  | null
  | boolean (b : Bool)
  | integer (n : Int)
  | number (x : Binary64)
  | text (s : String)
  deriving DecidableEq, Repr

namespace Scalar

def isNullWord (s : String) : Bool :=
  s = "~" || s = "null" || s = "Null" || s = "NULL"

def boolean? (s : String) : Option Bool :=
  if s = "true" || s = "True" || s = "TRUE" then some true
  else if s = "false" || s = "False" || s = "FALSE" then some false
  else none

def digit? (base : Nat) (c : Char) : Option Nat :=
  (Text.hexValue? c).filter (· < base)

def digits? (base : Nat) (cs : List Char) : Option Nat :=
  if cs.isEmpty then none
  else cs.foldlM (fun n c => do return n * base + (← digit? base c)) 0

/-- A natural number without its sign, in the base that its mark names. -/
def unsigned? : List Char → Option Nat
  | '0' :: 'x' :: r => digits? 16 r
  | '0' :: 'o' :: r => digits? 8 r
  | '0' :: 'b' :: r => digits? 2 r
  | cs => digits? 10 cs

def unsignedPart (cs : List Char) : List Char :=
  match cs with
  | '+' :: r => r
  | '-' :: r => r
  | _ => cs

/-- Two digits or more of which the first is a zero are a text. -/
def hasSuperfluousZero (cs : List Char) : Bool :=
  match unsignedPart cs with
  | '0' :: c :: r => (c :: r).all Text.isDigit
  | _ => false

def integer? (cs : List Char) : Option Int :=
  if hasSuperfluousZero cs then none
  else match cs with
    | '-' :: r => (unsigned? r).map fun n => -(n : Int)
    | _ => (unsigned? (unsignedPart cs)).map Int.ofNat

/-- An exponent: a sign and digits behind the letter, zero if there is none. -/
def exponent? : List Char → Option Int
  | [] => some 0
  | e :: r =>
    if e = 'e' || e = 'E' then
      match r with
      | '-' :: ds => (Text.digitsNatural? ds).map fun n => -(n : Int)
      | '+' :: ds => (Text.digitsNatural? ds).map Int.ofNat
      | ds => (Text.digitsNatural? ds).map Int.ofNat
    else none

def decimal? (cs : List Char) : Option (Nat × Int) := do
  let whole := cs.takeWhile Text.isDigit
  let rest := cs.dropWhile Text.isDigit
  let (fraction, rest) := match rest with
    | '.' :: r => (r.takeWhile Text.isDigit, r.dropWhile Text.isDigit)
    | _ => ([], rest)
  let digits ← Text.digitsNatural? (whole ++ fraction)
  return (digits, (← exponent? rest) - fraction.length)

def number? (s : String) : Option Binary64 :=
  let cs := s.toList
  let body := unsignedPart cs
  let negative := cs.head? = some '-'
  let word := String.ofList body
  if word = ".inf" || word = ".Inf" || word = ".INF" then some (.infinite negative)
  else if s = ".nan" || s = ".NaN" || s = ".NAN" then some .nan
  else do
    let (digits, exponent) ← decimal? body
    Binary64.ofDecimal? negative digits exponent

/-- An integer that is kept as one has 64 bits, and is negative or not. -/
def isKept (n : Int) : Bool :=
  -(Nat.pow 2 63 : Int) ≤ n && n < Nat.pow 2 64

/-- Integers of up to 128 bits are too large to be kept; larger ones are numbers. -/
def isLarge (n : Int) : Bool :=
  -(Nat.pow 2 127 : Int) ≤ n && n < Nat.pow 2 128

/-- The integer of a scalar: `none` if it is none, `some none` if it cannot be kept. -/
def keptInteger? (s : String) : Option (Option Int) :=
  match integer? s.toList with
  | some n => if isKept n then some (some n) else if isLarge n then some none else none
  | none => none

def ofPlain? (s : String) : Option Scalar :=
  if s = "" || isNullWord s then some .null
  else match boolean? s with
    | some b => some (.boolean b)
    | none => match keptInteger? s with
      | some n => n.map .integer
      | none =>
        if hasSuperfluousZero s.toList then some (.text s)
        else match number? s with
          | some x => some (.number x)
          | none => some (.text s)

def coreTag : String :=
  "tag:yaml.org,2002:"

def ofTagged? (tag s : String) : Option Scalar :=
  if tag = coreTag ++ "bool" then (boolean? s).map .boolean
  else if tag = coreTag ++ "int" then (keptInteger? s).bind fun n => n.map .integer
  else if tag = coreTag ++ "float" then (number? s).map .number
  else if tag = coreTag ++ "null" then if isNullWord s then some .null else none
  else some (.text s)

end Scalar

end PluginResolution.Yaml
