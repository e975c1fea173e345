import Jarsmith.Decimal.Rounding

/-!
# The shortest decimal that reads back

A floating point number is shown with the fewest digits from which the nearest number is that
number again, and among those with the digits nearest to it. The reals that round to `m * 2 ^ e`
form an interval whose ends count exactly if `m` is even; for one digit, two, and so on, the two
neighbours of the value on the decimal grid of that many digits are tested against it.
-/

namespace Jarsmith.Binary64

/-- A decimal: `digits * 10 ^ exponent`. -/
structure Decimal where
  digits : Nat
  exponent : Int
  deriving DecidableEq, Repr

/-- The reals that round to a number, as fractions over one denominator: the value, the two ends,
and whether the ends belong to it. -/
structure Interval where
  low : Nat
  value : Nat
  high : Nat
  den : Nat
  closed : Bool

/-- The interval around `m * 2 ^ e`; below a power of two the spacing is halved. -/
def interval (m : Nat) (e : Int) : Interval :=
  let up := 4 * Nat.pow 2 e.toNat
  let below := if m = Nat.pow 2 52 ∧ e > -1074 then 1 else 2
  { low := scaleUp (4 * m - below) e
    value := m * up
    high := scaleUp (4 * m + 2) e
    den := 4 * Nat.pow 2 (-e).toNat
    closed := m % 2 = 0 }

/-- Whether `n * 10 ^ k` lies in the interval. -/
def Interval.holds (i : Interval) (n : Nat) (k : Int) : Bool :=
  let point := n * Nat.pow 10 k.toNat * i.den
  let scale := Nat.pow 10 (-k).toNat
  if i.closed then i.low * scale ≤ point && point ≤ i.high * scale
  else i.low * scale < point && point < i.high * scale

/-- The neighbour of the value on the grid `10 ^ k` that lies in the interval; if both do, the
nearer. -/
def Interval.neighbour? (i : Interval) (k : Int) : Option Nat :=
  let num := i.value * Nat.pow 10 (-k).toNat
  let den := i.den * Nat.pow 10 k.toNat
  let below := num / den
  let nearest := roundDiv num den
  if i.holds nearest k then some nearest
  else if i.holds below k then some below
  else if i.holds (below + 1) k then some (below + 1)
  else none

/-- The first grid, from `k` downwards, on which a neighbour lies in the interval. -/
def Interval.search (i : Interval) : (grids : Nat) → Int → Decimal
  | 0, k => ⟨i.value * Nat.pow 10 (-k).toNat / (i.den * Nat.pow 10 k.toNat), k⟩
  | grids + 1, k =>
    match i.neighbour? k with
    | some n => ⟨n, k⟩
    | none => i.search grids (k - 1)

/-- The number of decimal digits before the point of `num / den`, zero or less for a fraction. -/
def magnitude (num den : Nat) : Int :=
  if den ≤ num then (Nat.toDigits 10 (num / den)).length
  else 1 - ((Nat.toDigits 10 ((den - 1) / num)).length : Int)

/-- The shortest decimal of `m * 2 ^ e`, for a positive `m`. Seventeen digits always suffice; a
few grids more cost nothing and make up for a magnitude that is one too high. -/
def shortest (m : Nat) (e : Int) : Decimal :=
  let i := interval m e
  i.search 20 (magnitude i.value i.den - 1)

/-- Drops the zeros at the end of the digits. -/
def Decimal.normalize (fuel : Nat) (d : Decimal) : Decimal :=
  match fuel with
  | 0 => d
  | fuel + 1 =>
    if d.digits ≠ 0 ∧ d.digits % 10 = 0 then
      Decimal.normalize fuel ⟨d.digits / 10, d.exponent + 1⟩
    else d

/-- Zeros, `n` of them. -/
def zeros (n : Nat) : Text := List.replicate n 0x30

/-- How the shortest decimal is laid out: positional while the point stands at most sixteen digits
to the right of the first digit and at most three zeros before it, else with an exponent of at
least two digits; a whole number keeps one zero after the point. -/
def layOut (d : Decimal) : Text :=
  let digits := Text.ofNat d.digits
  let point : Int := digits.length + d.exponent
  if -4 < point ∧ point ≤ 16 then
    if point ≤ 0 then ("0." : Text) ++ zeros (-point).toNat ++ digits
    else if (digits.length : Int) ≤ point then
      digits ++ zeros (point.toNat - digits.length) ++ (".0" : Text)
    else digits.take point.toNat ++ 0x2E :: digits.drop point.toNat
  else
    let exponent := point - 1
    let size := Text.ofNat exponent.natAbs
    let fraction := if digits.length = 1 then [] else 0x2E :: digits.drop 1
    digits.take 1 ++ fraction ++ 0x65 :: (if exponent < 0 then 0x2D else 0x2B) ::
      (zeros (2 - size.length) ++ size)

/-- The text of a number. -/
def toText : Binary64 → Text
  | .nan => "nan"
  | .infinity false => "inf"
  | .infinity true => "-inf"
  | .finite negative m e =>
    let sign : Text := if negative then "-" else []
    if m = 0 then sign ++ ("0.0" : Text)
    else sign ++ layOut ((shortest m e).normalize 400)

end Jarsmith.Binary64
