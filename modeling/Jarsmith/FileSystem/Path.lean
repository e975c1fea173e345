import Jarsmith.Text.Basic

/-!
# Paths

A path is a sequence of parts below the root or below the working directory. Reading one drops what
does not matter: repeated slashes, a slash at the end, and the parts that are a single dot. Two dots
are kept, since what they lead to depends on the files. A path that begins with exactly two slashes
keeps them both.
-/

namespace Jarsmith

/-- A path: the number of slashes at its beginning, and its parts. -/
structure Path where
  slashes : Nat
  parts : List Text
  deriving DecidableEq, Repr

namespace Path

/-- The slash. -/
abbrev slash : CodePoint := 0x2F

/-- The part that stays where it is. -/
def dot : Text := "."

/-- The part that goes up. -/
def dotDot : Text := ".."

/-- The number of slashes that a path keeps at its beginning. -/
def keptSlashes : Text → Nat
  | 0x2F :: 0x2F :: 0x2F :: _ => 1
  | 0x2F :: 0x2F :: _ => 2
  | 0x2F :: _ => 1
  | _ => 0

/-- The path that a text writes. -/
def ofText (t : Text) : Path where
  slashes := keptSlashes t
  parts := (t.splitOn slash).filter fun part => !part.isEmpty && part != dot

instance : Coe String Path := ⟨fun s => ofText s⟩

/-- The text of a path; a path without parts is the dot. -/
def toText (p : Path) : Text :=
  if p.slashes = 0 ∧ p.parts.isEmpty then dot
  else List.replicate p.slashes slash ++ Text.joinWith [slash] p.parts

/-- The path begins at the root. -/
def isAbsolute (p : Path) : Bool := p.slashes != 0

/-- The path `p` as seen from `base`. -/
def under (base p : Path) : Path :=
  if p.isAbsolute then p else { base with parts := base.parts ++ p.parts }

/-- The path of a part in a directory. -/
def child (p : Path) (part : Text) : Path := p.under (ofText part)

/-- The last part; empty if there is none. -/
def name (p : Path) : Text := p.parts.getLast?.getD []

/-- The path without its last part. -/
def parent (p : Path) : Path := { p with parts := p.parts.dropLast }

/-- The end of a name from its last dot on, if something stands before and after that dot. -/
def suffixOf (name : Text) : Text :=
  let after := name.reverse.takeWhile (· ≠ 0x2E)
  if after.isEmpty || name.length ≤ after.length + 1 then [] else 0x2E :: after.reverse

/-- The ending of the last part. -/
def ending (p : Path) : Text := suffixOf p.name

/-- Goes through parts from a place: two dots go up, and stay at the root. -/
def descend (place : List Text) (parts : List Text) : List Text :=
  parts.foldl (fun place part => if part = dotDot then place.dropLast else place ++ [part]) place

/-- The absolute path without two dots that `p` is, as seen from a place. -/
def resolve (p : Path) (workingDirectory : List Text) : Path where
  slashes := 1
  parts := descend (if p.isAbsolute then [] else workingDirectory) p.parts

end Path

end Jarsmith
