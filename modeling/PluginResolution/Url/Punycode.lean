/-!
Punycode (RFC 3492): texts written with ASCII letters, digits and hyphens. The characters outside of
ASCII come last, in rising order, each as the distance from the one before.
-/
namespace PluginResolution.Url.Punycode

def digitChar (d : Nat) : Char :=
  if d < 26 then Char.ofNat (97 + d) else Char.ofNat (22 + d)

def digitValue? (c : Char) : Option Nat :=
  if 'a' ≤ c ∧ c ≤ 'z' then some (c.toNat - 97)
  else if 'A' ≤ c ∧ c ≤ 'Z' then some (c.toNat - 65)
  else if '0' ≤ c ∧ c ≤ '9' then some (c.toNat - 22)
  else none

/-- The least digit that does not end a number at weight `k`. -/
def threshold (k bias : Nat) : Nat :=
  if k ≤ bias then 1 else min (k - bias) 26

theorem threshold_bounds (k bias : Nat) : 1 ≤ threshold k bias ∧ threshold k bias ≤ 26 := by
  unfold threshold
  split <;> omega

def adaptLoop (delta k : Nat) : Nat × Nat :=
  if 455 < delta then adaptLoop (delta / 35) (k + 36) else (delta, k)
termination_by delta
decreasing_by omega

def adapt (delta points : Nat) (first : Bool) : Nat :=
  let delta := if first then delta / 700 else delta / 2
  let (delta, k) := adaptLoop (delta + delta / points) 0
  k + 36 * delta / (delta + 38)

/-- The digits of a distance, from weight `k` on. -/
def digits (bias k q : Nat) : List Char :=
  let t := threshold k bias
  if q < t then [digitChar q]
  else digitChar (t + (q - t) % (36 - t)) :: digits bias (k + 36) ((q - t) / (36 - t))
termination_by q
decreasing_by
  have h := threshold_bounds k bias
  have := Nat.div_le_self (q - threshold k bias) (36 - threshold k bias)
  omega

structure Writing where
  written : List Char := []
  delta : Nat := 0
  bias : Nat := 72
  points : Nat

def Writing.pass (basic m : Nat) (w : Writing) (c : Char) : Writing :=
  if c.toNat < m then { w with delta := w.delta + 1 }
  else if c.toNat = m then
    { written := w.written ++ digits w.bias 36 w.delta
      delta := 0
      bias := adapt w.delta (w.points + 1) (w.points = basic)
      points := w.points + 1 }
  else w

/-- Writes the characters with the given codes, which are those from `n` on in rising order. -/
def Writing.run (text : List Char) (basic : Nat) : List Nat → Nat → Writing → Writing
  | [], _, w => w
  | m :: rest, n, w =>
    let w := text.foldl (pass basic m) { w with delta := w.delta + (m - n) * (w.points + 1) }
    run text basic rest (m + 1) { w with delta := w.delta + 1 }

def isAscii (c : Char) : Bool :=
  c.toNat < 128

def encode (text : List Char) : List Char :=
  let basic := text.filter isAscii
  let codes := ((text.filter fun c => !isAscii c).map Char.toNat).eraseDups.mergeSort
  let w := Writing.run text basic.length codes 128 { points := basic.length }
  basic ++ (if basic.isEmpty then [] else ['-']) ++ w.written

def readDigits (bias : Nat) : List Char → Nat → Nat → Nat → Option (Nat × List Char)
  | [], _, _, _ => none
  | c :: rest, k, weight, sum => do
    let d ← digitValue? c
    let sum := sum + d * weight
    let t := threshold k bias
    if d < t then some (sum, rest) else readDigits bias rest (k + 36) (weight * (36 - t)) sum

/-- Reads the characters outside of ASCII. The first argument bounds their number. -/
def readPoints : Nat → Nat → Nat → Nat → List Char → List Char → Option (List Char)
  | _, _, _, _, text, [] => some text
  | 0, _, _, _, _, _ => none
  | fuel + 1, bias, n, i, text, rest => do
    let (j, rest) ← readDigits bias rest 36 1 i
    let points := text.length + 1
    let n := n + j / points
    if n.isValidChar then
      readPoints fuel (adapt (j - i) points (i = 0)) n (j % points + 1)
        (text.insertIdx (j % points) (Char.ofNat n)) rest
    else none

def decode (written : List Char) : Option (List Char) :=
  let tail := (written.reverse.takeWhile (· ≠ '-')).reverse
  let basic := (written.take (written.length - tail.length)).dropLast
  if basic.all isAscii then readPoints tail.length 72 128 0 basic tail else none

end PluginResolution.Url.Punycode
