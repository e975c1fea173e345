import Jarsmith.Text.Basic

/-!
# Rounding quotients and binary floating point numbers

`roundDiv` rounds a quotient of natural numbers to the nearest integer, a half to the even
neighbour. On it rests `Binary64`, the floating point numbers of 64 bits as sign, mantissa and
exponent, with the conversions that are exact up to that one rounding. No machine arithmetic is
involved, so every value can be reasoned about in `Nat`.
-/

namespace Jarsmith

/-- The integer nearest to `num / den`; a half goes to the even neighbour. -/
def roundDiv (num den : Nat) : Nat :=
  let quotient := num / den
  let rest := num % den
  if 2 * rest < den then quotient
  else if 2 * rest > den then quotient + 1
  else if quotient % 2 = 0 then quotient else quotient + 1

/-- A floating point number of 64 bits. The value of `finite s m e` is `m * 2 ^ e`, negated if `s`;
numbers made by this module have `m < 2 ^ 53`, `-1074 ≤ e`, and `2 ^ 52 ≤ m` unless `e = -1074`. -/
inductive Binary64 where
  | nan
  | infinity (negative : Bool)
  | finite (negative : Bool) (mantissa : Nat) (exponent : Int)
  deriving DecidableEq, Repr

namespace Binary64

/-- The numerator of `n * 2 ^ e`. -/
def scaleUp (n : Nat) (e : Int) : Nat := n * Nat.pow 2 e.toNat

/-- Zero. -/
def zero (negative : Bool) : Binary64 := .finite negative 0 (-1074)

/-- The mantissa `m` at the exponent `e`, after a rounding that may have carried `m` to `2 ^ 53`;
beyond the largest exponent there is only infinity. -/
def ofRounded (negative : Bool) (m : Nat) (e : Int) : Binary64 :=
  let (m, e) := if m = Nat.pow 2 53 then (Nat.pow 2 52, e + 1) else (m, e)
  if e > 971 then .infinity negative else .finite negative m e

/-- The number nearest to `num / den`. -/
def ofRatio (negative : Bool) (num den : Nat) : Binary64 :=
  if num = 0 then zero negative
  else
    let e : Int := max (-1074) ((num.log2 : Int) - (den.log2 : Int) - 53)
    let e := if scaleUp num (-e) / scaleUp den e < Nat.pow 2 53 then e else e + 1
    ofRounded negative (roundDiv (scaleUp num (-e)) (scaleUp den e)) e

/-- The number nearest to an integer. -/
def ofInt (n : Int) : Binary64 := ofRatio (n < 0) n.natAbs 1

/-- The number nearest to `digits * 10 ^ exponent`. Exponents that are out of range for every
mantissa of that many digits are told apart first, so that no huge power is formed. -/
def ofDecimal (negative : Bool) (digits : Nat) (exponent : Int) : Binary64 :=
  if digits = 0 then zero negative
  else
    let size : Int := (Nat.toDigits 10 digits).length + exponent
    if size > 310 then .infinity negative
    else if size < -330 then zero negative
    else ofRatio negative (digits * Nat.pow 10 exponent.toNat)
      (Nat.pow 10 (-exponent).toNat)

/-- The integer that a number is, if it is one. -/
def toInt? : Binary64 → Option Int
  | .finite negative m e =>
    let magnitude : Option Nat :=
      if 0 ≤ e then some (scaleUp m e)
      else if m % scaleUp 1 (-e) = 0 then some (m / scaleUp 1 (-e)) else none
    magnitude.map fun n => if negative then -(n : Int) else n
  | _ => none

/-- The number nearest to a number that is not negative, times `n`. -/
def scale (n : Nat) : Binary64 → Binary64
  | .finite negative m e => ofRatio negative (scaleUp (m * n) e) (scaleUp 1 (-e))
  | x => x

/-- The integer part of a number that is not negative; nothing for numbers that are not finite. -/
def floor : Binary64 → Nat
  | .finite _ m e => scaleUp m e / scaleUp 1 (-e)
  | _ => 0

end Binary64

end Jarsmith
