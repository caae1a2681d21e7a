/-!
Numbers as they are kept in 64 bits of binary floating point: a natural number below 2^53 times a
power of two from 2^-1074 on, below 2^1024. A decimal is rounded to the nearest of them, of two
equally near ones to the even.
-/
namespace PluginResolution

/-- A number in the one form with an odd factor, or zero. -/
inductive Binary64 where
  | nan
  | infinite (negative : Bool)
  | zero
  /-- The odd factor times two to the exponent less 1074. -/
  | finite (negative : Bool) (factor exponent : Nat)
  deriving DecidableEq, Repr

namespace Binary64

/-- A quotient rounded to the nearest natural number, a half to the even one. -/
def roundDiv (num den : Nat) : Nat :=
  let q := num / den
  let r := num % den
  if 2 * r < den then q
  else if den < 2 * r then q + 1
  else if q % 2 = 0 then q else q + 1

def twos : Nat → Nat → Nat
  | 0, _ => 0
  | limit + 1, n => if n % 2 = 0 then twos limit (n / 2) + 1 else 0

/-- The number nearest to a positive quotient; `none` beyond the largest one. -/
def ofQuotient? (negative : Bool) (num den : Nat) : Option Binary64 :=
  let scaled := num * Nat.pow 2 1074
  let digits := Nat.log2 (scaled / den) + 1
  let shift := digits - 53
  let m := roundDiv scaled (den * Nat.pow 2 shift)
  let t := twos 54 m
  if m = 0 then some .zero
  else if 1024 + 1074 ≤ Nat.log2 m + shift then none
  else some (.finite negative (m / Nat.pow 2 t) (shift + t))

def ofDecimal? (negative : Bool) (digits : Nat) (exponent : Int) : Option Binary64 :=
  if digits = 0 then some .zero
  else
    let places : Int := (Nat.toDigits 10 digits).length
    if 400 < places + exponent then none
    else if places + exponent < -400 then some .zero
    else match exponent with
      | .ofNat e => ofQuotient? negative (digits * Nat.pow 10 e) 1
      | .negSucc e => ofQuotient? negative digits (Nat.pow 10 (e + 1))

end Binary64

end PluginResolution
