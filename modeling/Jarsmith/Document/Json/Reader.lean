import Jarsmith.Document.Basic

/-!
# Reading JSON

The value that a JSON text writes. A number with a point or an exponent is a floating point number,
any other an integer. Two escapes that are the halves of one code point are put together; a half
that stands alone is kept as it is.
-/

namespace Jarsmith.Document

/-- A value of the given type and the text after it. -/
abbrev JsonReader (α : Type) := Text → Option (α × Text)

/-- The text without the blanks at its beginning. -/
def skipJsonBlanks (t : Text) : Text :=
  t.dropWhile fun c => c == 0x20 || c == 0x09 || c == 0x0A || c == 0x0D

/-- Four hexadecimal digits. -/
def readJsonUnit : JsonReader Nat
  | a :: b :: c :: d :: rest => do
    let n ← [a, b, c, d].foldlM (fun n c => (CodePoint.hexValue? c).map (n * 16 + ·)) 0
    return (n, rest)
  | _ => none

/-- What a letter after a backslash stands for. -/
def jsonEscape (c : CodePoint) : CodePoint :=
  if c = 0x6E then 0x0A
  else if c = 0x74 then 0x09
  else if c = 0x72 then 0x0D
  else if c = 0x62 then 0x08
  else if c = 0x66 then 0x0C
  else c

/-- The first half of a code point beyond 16 bits. -/
def isFirstHalf (n : Nat) : Bool := 0xD800 ≤ n && n < 0xDC00

/-- The second half of a code point beyond 16 bits. -/
def isSecondHalf (n : Nat) : Bool := 0xDC00 ≤ n && n < 0xE000

/-- Puts the halves of code points together. `escaped` tells which code points were escapes. -/
def joinHalves : List (Nat × Bool) → Text
  | (a, true) :: (b, true) :: rest =>
    if isFirstHalf a && isSecondHalf b then
      (0x10000 + (a - 0xD800) * 0x400 + (b - 0xDC00)) :: joinHalves rest
    else a :: joinHalves ((b, true) :: rest)
  | (a, _) :: rest => a :: joinHalves rest
  | [] => []

/-- The rest of a text after its opening quote, each code point with whether it was an escape by
number. -/
def readJsonPoints : (fuel : Nat) → JsonReader (List (Nat × Bool))
  | 0, _ => none
  | _ + 1, [] => none
  | fuel + 1, c :: t =>
    if c = 0x22 then some ([], t)
    else if c = 0x5C then
      match t with
      | 0x75 :: t => do
        let (n, t) ← readJsonUnit t
        let (rest, t) ← readJsonPoints fuel t
        return ((n, true) :: rest, t)
      | e :: t => do
        let (rest, t) ← readJsonPoints fuel t
        return ((jsonEscape e, false) :: rest, t)
      | [] => none
    else do
      let (rest, t) ← readJsonPoints fuel t
      return ((c, false) :: rest, t)

/-- The rest of a text after its opening quote. -/
def readJsonText (t : Text) : Option (Text × Text) :=
  (readJsonPoints (t.length + 1) t).map fun (points, rest) => (joinHalves points, rest)

/-- The number that digits write. -/
def jsonDigits (t : Text) : Nat := t.foldl (fun n c => n * 10 + (c - 0x30)) 0

/-- The exponent of a number, if it has one. -/
def readJsonExponent (t : Text) : Option Int × Text :=
  match t with
  | c :: rest =>
    if c = 0x65 ∨ c = 0x45 then
      let (negative, rest) := match rest with
        | 0x2D :: rest => (true, rest)
        | 0x2B :: rest => (false, rest)
        | rest => (false, rest)
      let (digits, rest) := rest.span CodePoint.isDigit
      (some (if negative then -(jsonDigits digits : Int) else jsonDigits digits), rest)
    else (none, t)
  | [] => (none, t)

/-- A number. -/
def readJsonNumber (t : Text) : Option (Document × Text) :=
  let (negative, t) := match t with
    | 0x2D :: t => (true, t)
    | t => (false, t)
  let (whole, t) := t.span CodePoint.isDigit
  let (fraction?, t) := match t with
    | 0x2E :: t =>
      let (digits, t) := t.span CodePoint.isDigit
      (some digits, t)
    | t => (none, t)
  let (exponent?, t) := readJsonExponent t
  let fraction := fraction?.getD []
  if whole.isEmpty then none
  else if fraction?.isSome || exponent?.isSome then
    some (.float (.ofDecimal negative (jsonDigits (whole ++ fraction))
      (exponent?.getD 0 - fraction.length)), t)
  else
    let n : Int := jsonDigits whole
    some (.int (if negative then -n else n), t)

mutual

/-- A value. -/
def readJson : (fuel : Nat) → JsonReader Document
  | 0, _ => none
  | fuel + 1, t =>
    match skipJsonBlanks t with
    | 0x22 :: t => (readJsonText t).map fun (s, t) => (.text s, t)
    | 0x7B :: t => (readJsonEntries fuel t).map fun (es, t) => (.mapping es, t)
    | 0x5B :: t => (readJsonItems fuel t).map fun (is, t) => (.list is, t)
    | t =>
      match Text.dropStart? "true" t, Text.dropStart? "false" t, Text.dropStart? "null" t with
      | some t, _, _ => some (.bool true, t)
      | _, some t, _ => some (.bool false, t)
      | _, _, some t => some (.null, t)
      | _, _, _ => readJsonNumber t

/-- The items of a sequence, up to its end. -/
def readJsonItems : (fuel : Nat) → JsonReader (List Document)
  | 0, _ => none
  | fuel + 1, t =>
    match skipJsonBlanks t with
    | 0x5D :: t => some ([], t)
    | 0x2C :: t => readJsonItems fuel t
    | t => do
      let (item, t) ← readJson fuel t
      let (items, t) ← readJsonItems fuel t
      return (item :: items, t)

/-- The entries of a mapping, up to its end. -/
def readJsonEntries : (fuel : Nat) → JsonReader (List (Document × Document))
  | 0, _ => none
  | fuel + 1, t =>
    match skipJsonBlanks t with
    | 0x7D :: t => some ([], t)
    | 0x2C :: t => readJsonEntries fuel t
    | 0x22 :: t => do
      let (key, t) ← readJsonText t
      match skipJsonBlanks t with
      | 0x3A :: t =>
        let (value, t) ← readJson fuel t
        let (entries, t) ← readJsonEntries fuel t
        return ((.text key, value) :: entries, t)
      | _ => none
    | _ => none

end

/-- The value that a JSON text writes. -/
def ofJson? (t : Text) : Option Document := (readJson (t.length + 2) t).map Prod.fst

end Jarsmith.Document
