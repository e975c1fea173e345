/-!
# How hard a stream is made small

A level from 0 to 9 says how much work goes into making a stream small. Level 0 stores the bytes;
the others differ in how long matches are looked for.
-/

namespace Jarsmith.Deflate

/-- How much work goes into making a stream small. -/
abbrev Level := Fin 10

namespace Level

/-- The level of those who do not choose one. -/
def standard : Level := 6

/-- The level of a number, where -1 stands for the usual one. -/
def ofInt? (n : Int) : Option Level :=
  if n = -1 then some standard
  else if h : 0 ≤ n ∧ n < 10 then some ⟨n.toNat, by omega⟩
  else none

end Level

/-- When a search for matches goes on, and when it is content. -/
structure Effort where
  /-- With a match of this length at hand, only a quarter of the candidates are tried. -/
  good : Nat
  /-- With a match of this length at hand, no longer one is looked for. Where matches are not
  deferred, this is the length up to which the places inside of a match are remembered. -/
  sufficient : Nat
  /-- A match of this length ends the search. -/
  nice : Nat
  /-- How many candidates are tried. -/
  tries : Nat
  /-- A match is taken only if there is no longer one at the next place. -/
  defers : Bool
  deriving DecidableEq, Repr

/-- The effort of each level but 0. -/
def Level.effort? : Level → Option Effort
  | 0 => none
  | 1 => some ⟨4, 4, 8, 4, false⟩
  | 2 => some ⟨4, 5, 16, 8, false⟩
  | 3 => some ⟨4, 6, 32, 32, false⟩
  | 4 => some ⟨4, 4, 16, 16, true⟩
  | 5 => some ⟨8, 16, 32, 32, true⟩
  | 6 => some ⟨8, 16, 128, 128, true⟩
  | 7 => some ⟨8, 32, 128, 256, true⟩
  | 8 => some ⟨32, 128, 258, 1024, true⟩
  | 9 => some ⟨32, 258, 258, 4096, true⟩

end Jarsmith.Deflate
