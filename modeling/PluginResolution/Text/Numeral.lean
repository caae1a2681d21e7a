namespace PluginResolution.Text

def isDigit (c : Char) : Bool :=
  '0' ≤ c && c ≤ '9'

def digitsNatural? (cs : List Char) : Option Nat :=
  if cs.isEmpty || !cs.all isDigit then none
  else some (cs.foldl (fun n c => 10 * n + (c.toNat - 48)) 0)

/-- The number that digits after an optional plus sign spell, if it is below the bound. -/
def natural? (bound : Nat) (cs : List Char) : Option Nat :=
  let digits := match cs with
    | '+' :: r => r
    | _ => cs
  (digitsNatural? digits).filter (· < bound)

def hexValue? (c : Char) : Option Nat :=
  if '0' ≤ c ∧ c ≤ '9' then some (c.toNat - 48)
  else if 'a' ≤ c ∧ c ≤ 'f' then some (c.toNat - 87)
  else if 'A' ≤ c ∧ c ≤ 'F' then some (c.toNat - 55)
  else none

def hexDigit (n : Nat) : Char :=
  if n < 10 then Char.ofNat (48 + n) else Char.ofNat (87 + n)

end PluginResolution.Text
