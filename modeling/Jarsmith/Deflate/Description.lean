import Jarsmith.Deflate.Search
import Jarsmith.Deflate.Token

/-!
# Describing bytes by tokens

From its first byte on, a sequence of bytes is described by tokens: a match where there is one, and
a literal otherwise. A greedy description takes each match at once; a deferring one takes it only if
the next place has no longer match, and a literal in its stead if there is.
-/

namespace Jarsmith.Deflate

/-- The tokens of a sequence of bytes. -/
structure Description where
  tokens : Array Token
  /-- A byte at the end that might still have been the first one of a match. -/
  last? : Option UInt8
  deriving DecidableEq, Repr

/-- No match. -/
def Found.none : Found := ⟨leastMatch - 1, 0⟩

/-- A match of the least length is no gain from a greater distance than this. -/
abbrev shortDistance : Nat := 4096

/-- A match that is too short for its distance counts as none. -/
def Found.orNone (place : Nat) (f : Found) : Found :=
  if f.length = leastMatch && shortDistance < place - f.start then .none else f

/-- The tokens from a place on, each match taken at once. -/
def greedy (e : Effort) (data : Array UInt8) (place : Nat) (places : Places)
    (tokens : Array Token) : Array Token :=
  if h : place < data.size then
    let (candidate, places) := places.visit data place
    let found :=
      if isCandidate place candidate then places.search e data place candidate .none else .none
    if m : 3 ≤ found.length then
      let places :=
        if found.length ≤ e.sufficient && place + found.length + leastMatch ≤ data.size then
          places.visitAll data (found.length - 1) (place + 1)
        else places
      greedy e data (place + found.length) places
        (tokens.push (.copied found.length (place - found.start)))
    else greedy e data (place + 1) places (tokens.push (.literal data[place]))
  else tokens
termination_by data.size - place
decreasing_by
  · exact Nat.sub_lt_sub_left h (show place < place + found.length by omega)
  · omega

/-- The tokens from a place on, where `held` is the match of the place before it. The place before
it has no token yet if `waits` is true. -/
def deferring (e : Effort) (data : Array UInt8) (place : Nat) (places : Places) (held : Found)
    (waits : Bool) (tokens : Array Token) : Description :=
  if _h : place < data.size then
    let (candidate, places) := places.visit data place
    let found :=
      if isCandidate place candidate && held.length < e.sufficient then
        (places.search e data place candidate held).orNone place
      else .none
    if _m : 3 ≤ held.length ∧ found.length ≤ held.length then
      let places := places.visitAll data (held.length - 2) (place + 1)
      deferring e data (place - 1 + held.length) places .none false
        (tokens.push (.copied held.length (place - 1 - held.start)))
    else
      let tokens := if waits then tokens.push (.literal (data.getD (place - 1) 0)) else tokens
      deferring e data (place + 1) places found true tokens
  else ⟨tokens, if waits then data[place - 1]? else none⟩
termination_by data.size - place
decreasing_by all_goals omega

/-- The tokens of a sequence of bytes. -/
def describe (e : Effort) (data : Array UInt8) : Description :=
  if e.defers then deferring e data 0 (.empty data.size) .none false #[]
  else ⟨greedy e data 0 (.empty data.size) #[], none⟩

end Jarsmith.Deflate
