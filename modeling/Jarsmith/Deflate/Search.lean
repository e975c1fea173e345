import Jarsmith.Deflate.Effort

/-!
# Looking for matches

The places of a sequence of bytes are remembered by their first three bytes, those with the same
mark in a chain that begins with the latest. A search walks a chain and keeps the longest match.
-/

namespace Jarsmith.Deflate

/-- The least length of a match. -/
abbrev leastMatch : Nat := 3

/-- The greatest length of a match. -/
abbrev greatestMatch : Nat := 258

/-- The greatest distance of a match. Farther than that, a place may be forgotten while the bytes of
a longest match are still to come. -/
abbrev greatestDistance : Nat := 32768 - 262

/-- How many different marks there are. -/
abbrev markCount : Nat := 32768

/-- The mark of a place: a number made of its first three bytes. -/
def mark (data : Array UInt8) (place : Nat) : Nat :=
  let byte (i : Nat) := (data.getD (place + i) 0).toNat
  (((byte 0 <<< 10) ^^^ (byte 1 <<< 5)) ^^^ byte 2) % markCount

/-- The places seen so far. The place 0 stands for none, and so is never found. -/
structure Places where
  /-- The latest place of each mark. -/
  latest : Array Nat
  /-- For each place the one before it with the same mark. -/
  earlier : Array Nat

namespace Places

/-- No place of `size` ones seen. -/
def empty (size : Nat) : Places := ⟨Array.replicate markCount 0, Array.replicate size 0⟩

/-- Remembers a place, unless less than three bytes follow, and gives the one before it with the
same mark. -/
def visit (data : Array UInt8) (place : Nat) (p : Places) : Nat × Places :=
  if place + leastMatch ≤ data.size then
    let m := mark data place
    let before := p.latest.getD m 0
    (before, ⟨p.latest.setIfInBounds m place, p.earlier.setIfInBounds place before⟩)
  else (0, p)

/-- Remembers `count` places from `place` on. -/
def visitAll (data : Array UInt8) : (count : Nat) → (place : Nat) → Places → Places
  | 0, _, p => p
  | count + 1, place, p => visitAll data count (place + 1) (p.visit data place).2

end Places

/-- How many bytes agree from two places on, at most `most`. -/
def agreement (data : Array UInt8) (a b : Nat) : (most : Nat) → Nat
  | 0 => 0
  | most + 1 =>
    if data.getD a 0 = data.getD b 0 then agreement data (a + 1) (b + 1) most + 1 else 0

/-- Where bytes were found before, and how many of them agree. -/
structure Found where
  length : Nat
  start : Nat
  deriving DecidableEq, Repr

/-- Tries candidates until one is as long as `nice` or there are no more: at most `tries` of them,
and after the first one only those beyond `limit`. One counts if it is longer than the best before
it. -/
def Places.longest (p : Places) (data : Array UInt8) (place most nice limit : Nat) :
    (tries : Nat) → (candidate : Nat) → (best : Found) → Found
  | 0, _, best => best
  | tries + 1, candidate, best =>
    let length := agreement data candidate place most
    let best := if best.length < length then ⟨length, candidate⟩ else best
    let next := p.earlier.getD candidate 0
    if nice ≤ best.length || next ≤ limit then best
    else p.longest data place most nice limit tries next best

/-- The longest match at a place that beats `best`, or else `best`; the search begins with
`candidate`. -/
def Places.search (p : Places) (e : Effort) (data : Array UInt8) (place candidate : Nat)
    (best : Found) : Found :=
  let left := data.size - place
  let tries := if e.good ≤ best.length then e.tries / 4 else e.tries
  p.longest data place (min greatestMatch left) (min e.nice left) (place - greatestDistance) tries
    candidate best

/-- A candidate is there, and near enough. -/
def isCandidate (place candidate : Nat) : Bool :=
  candidate ≠ 0 && place - candidate ≤ greatestDistance

end Jarsmith.Deflate
