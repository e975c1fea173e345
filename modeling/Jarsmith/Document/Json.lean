import Jarsmith.Document.Basic

/-!
# Documents as JSON

The layout with one item a line, two spaces to a level. Texts keep every code point but the quote,
the backslash and the controls; days and times become texts.
-/

namespace Jarsmith.Document

/-- A code point inside a JSON text. -/
def jsonPoint (c : CodePoint) : Text :=
  if c = 0x22 ∨ c = 0x5C then [0x5C, c]
  else if c = 0x0A then [0x5C, 0x6E]
  else if c = 0x0D then [0x5C, 0x72]
  else if c = 0x09 then [0x5C, 0x74]
  else if c = 0x0C then [0x5C, 0x66]
  else if c = 0x08 then [0x5C, 0x62]
  else if c < 0x20 then 0x5C :: 0x75 :: Text.hex 4 c
  else [c]

/-- A JSON text. -/
def jsonText (t : Text) : Text := 0x22 :: t.flatMap jsonPoint ++ [0x22]

/-- A JSON number for a floating point number; infinities and what is no number have names. -/
def jsonFloat : Binary64 → Text
  | .nan => "NaN"
  | .infinity false => "Infinity"
  | .infinity true => "-Infinity"
  | x => x.toText

/-- The text of a key. -/
def jsonKey : Document → Text
  | null => "null"
  | bool b => if b then "true" else "false"
  | float x => jsonFloat x
  | d => d.plain

/-- Two spaces for every level. -/
def indent (level : Nat) : Text := List.replicate (2 * level) 0x20

/-- Parts on lines of their own, at a level below `level`, between brackets. -/
def jsonBlock (level : Nat) (opening closing : Text) (parts : List Text) : Text :=
  if parts.isEmpty then opening ++ closing
  else
    opening ++ 0x0A :: Text.joinWith [0x2C, 0x0A] (parts.map (indent (level + 1) ++ ·)) ++
      0x0A :: indent level ++ closing

mutual

/-- A value at a level. -/
def json (level : Nat) : Document → Text
  | null => "null"
  | bool b => if b then "true" else "false"
  | int n => Text.ofInt n
  | float x => jsonFloat x
  | text t => jsonText t
  | list items => jsonBlock level "[" "]" (jsonItems (level + 1) items)
  | tuple items => jsonBlock level "[" "]" (jsonItems (level + 1) items)
  | mapping entries => jsonBlock level "\x7b" "\x7d" (jsonEntries (level + 1) entries)
  | d => jsonText d.plain

/-- The items of a sequence at a level. -/
def jsonItems (level : Nat) : List Document → List Text
  | [] => []
  | item :: items => json level item :: jsonItems level items

/-- The entries of a mapping at a level. -/
def jsonEntries (level : Nat) : List (Document × Document) → List Text
  | [] => []
  | (key, value) :: entries =>
    (jsonText (jsonKey key) ++ (": " : Text) ++ json level value) :: jsonEntries level entries

end

/-- A value as JSON. -/
def toJson (d : Document) : Text := json 0 d

end Jarsmith.Document
