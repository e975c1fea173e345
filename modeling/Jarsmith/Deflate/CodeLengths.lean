import Jarsmith.Deflate.Token

/-!
# Code lengths in few symbols

The lengths of a code are written as symbols of another code: a length from 0 to 15, a repetition of
the length before (16), or a run of zeros (17 and 18). Each run of equal lengths is written with the
longest repetitions from its beginning on.
-/

namespace Jarsmith.Deflate

/-- A run of zeros. -/
def zeroRun (count : Nat) : List Coded :=
  if _h : 3 ≤ count then
    let taken := min count 138
    (if taken ≤ 10 then ⟨17, 3, taken - 3⟩ else ⟨18, 7, taken - 11⟩) ::
      zeroRun (count - min count 138)
  else List.replicate count ⟨0, 0, 0⟩
termination_by count

/-- Repetitions of the length before. -/
def repetitions (length count : Nat) : List Coded :=
  if _h : 3 ≤ count then
    ⟨16, 2, min count 6 - 3⟩ :: repetitions length (count - min count 6)
  else List.replicate count ⟨length, 0, 0⟩
termination_by count

/-- A run of equal lengths. -/
def lengthRun : List Nat → List Coded
  | [] => []
  | 0 :: rest => zeroRun (rest.length + 1)
  | length :: rest => ⟨length, 0, 0⟩ :: repetitions length rest.length

/-- The symbols that write the lengths of a code. -/
def codedLengths (lengths : List Nat) : List Coded :=
  (lengths.splitBy (· == ·)).flatMap lengthRun

end Jarsmith.Deflate
