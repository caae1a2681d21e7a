import PluginResolution.Text.Numeral

/-!
Addresses in place of names: four numbers with points between them, where the last one also stands
for those left out, and eight hexadecimal groups with colons between them, where two colons stand
for groups that are zero.
-/
namespace PluginResolution.Url.Address

def digitsIn? (base : Nat) (cs : List Char) : Option Nat :=
  cs.foldlM (fun n c => do
    let d ← Text.hexValue? c
    if d < base then some (base * n + d) else none) 0

/-- A part of an address: decimal, hexadecimal after `0x` or octal after `0`. -/
def part? : List Char → Option Nat
  | [] => none
  | '0' :: 'x' :: r => digitsIn? 16 r
  | '0' :: 'X' :: r => digitsIn? 16 r
  | '0' :: c :: r => digitsIn? 8 (c :: r)
  | cs => digitsIn? 10 cs

/-- The parts of a name, without an empty last one. -/
def parts (name : List Char) : List (List Char) :=
  let ps := List.splitOn '.' name
  if ps.getLast? = some [] then ps.dropLast else ps

def endsInNumber (name : List Char) : Bool :=
  match (parts name).getLast? with
  | some last => (!last.isEmpty && last.all Text.isDigit) || (part? last).isSome
  | none => false

def four? (name : List Char) : Option Nat := do
  let numbers ← (parts name).mapM part?
  let last ← numbers.getLast?
  let front := numbers.dropLast
  if 4 < numbers.length || front.any (255 < ·) || Nat.pow 256 (4 - front.length) ≤ last then none
  else some (front.foldr (fun n sum => (n * Nat.pow 256 3 + sum / 256)) 0 + last)

def fourText (n : Nat) : List Char :=
  let weights := [Nat.pow 256 3, Nat.pow 256 2, 256, 1]
  (".".intercalate (weights.map fun w => toString (n / w % 256))).toList

/-- A number below 256 in decimal, without zeros in front. -/
def byte? (cs : List Char) : Option Nat := do
  let n ← Text.digitsNatural? cs
  if n < 256 && (cs.length = 1 || cs.head? ≠ some '0') then some n else none

/-- The groups that a part between colons stands for; an address of four numbers is two groups. -/
def groups? (cs : List Char) (isLast : Bool) : Option (List Nat) :=
  if cs.contains '.' && isLast then do
    match ← (List.splitOn '.' cs).mapM byte? with
    | [a, b, c, d] => some [256 * a + b, 256 * c + d]
    | _ => none
  else if cs.isEmpty || 4 < cs.length then none
  else (digitsIn? 16 cs).map ([·])

/-- The groups between colons. The flag says whether the address ends with them. -/
def groupList? (atEnd : Bool) : List (List Char) → Option (List Nat)
  | [] => some []
  | cs :: rest => do return (← groups? cs (atEnd && rest.isEmpty)) ++ (← groupList? atEnd rest)

def splitGap : List Char → Option (List Char × List Char)
  | ':' :: ':' :: rest => some ([], rest)
  | c :: rest => (splitGap rest).map fun (a, b) => (c :: a, b)
  | [] => none

def run? (atEnd : Bool) (cs : List Char) : Option (List Nat) :=
  if cs.isEmpty then some [] else groupList? atEnd (List.splitOn ':' cs)

def eight? (text : List Char) : Option (List Nat) :=
  match splitGap text with
  | some (front, back) => do
    let a ← run? false front
    let b ← run? true back
    if a.length + b.length ≤ 7 then
      some (a ++ List.replicate (8 - a.length - b.length) 0 ++ b)
    else none
  | none => (run? true text).filter (·.length = 8)

/-- Start and length of the first longest run of zeros, from position `i` on. -/
def longestZeros : Nat → List Nat → Nat × Nat
  | _, [] => (0, 0)
  | i, n :: rest =>
    let here := ((n :: rest).takeWhile (· = 0)).length
    let (start, length) := longestZeros (i + 1) rest
    if length ≤ here then (i, here) else (start, length)

def hexText (n : Nat) : String :=
  String.ofList (Nat.toDigits 16 n)

/-- The address, with two colons for the longest run of at least two zeros. -/
def eightText (groups : List Nat) : List Char :=
  let joined (l : List Nat) := ":".intercalate (l.map hexText)
  let (start, length) := longestZeros 0 groups
  let text :=
    if length < 2 then joined groups
    else joined (groups.take start) ++ "::" ++ joined (groups.drop (start + length))
  text.toList

end PluginResolution.Url.Address
