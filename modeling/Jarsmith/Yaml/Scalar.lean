import Jarsmith.Document.Time
import Jarsmith.Decimal.Rounding
import Jarsmith.Yaml.Node
import Jarsmith.Yaml.Token

/-!
# What plain scalars mean

A plain scalar that looks like a number, a truth value, a day, a time or nothing is taken as one;
any other is a text. `plainTag` tells what a scalar looks like, and the functions after it read
scalars as what they were found, or said, to be.
-/

namespace Jarsmith.Yaml

/-! ### What a scalar looks like -/

/-- The words for nothing. -/
def nullWords : List Text := ["", "~", "null", "Null", "NULL"]

/-- The words for truth values. -/
def boolWords : List Text := ["true", "True", "TRUE", "false", "False", "FALSE"]

/-- The further words for truth values in the old version. -/
def oldBoolWords : List Text :=
  ["y", "Y", "yes", "Yes", "YES", "n", "N", "no", "No", "NO", "on", "On", "ON", "off", "Off", "OFF"]

/-- A digit or an underscore. -/
def isDigitOrGap (c : CodePoint) : Bool := c.isDigit || c == 0x5F

/-- A digit below eight or an underscore. -/
def isOctalOrGap (c : CodePoint) : Bool := (0x30 ≤ c && c ≤ 0x37) || c == 0x5F

/-- A digit zero or one, or an underscore. -/
def isBinaryOrGap (c : CodePoint) : Bool := c == 0x30 || c == 0x31 || c == 0x5F

/-- A hexadecimal digit or an underscore. -/
def isHexOrGap (c : CodePoint) : Bool := c.hexValue?.isSome || c == 0x5F

/-- At least one code point, all of a class. -/
def isRun (p : CodePoint → Bool) (t : Text) : Bool := !t.isEmpty && t.all p

/-- A text without the sign that it begins with. -/
def unsigned (t : Text) : Text :=
  match t with
  | 0x2B :: t | 0x2D :: t => t
  | t => t

/-- The text begins with a sign. -/
def isSigned (t : Text) : Bool := t.head? == some 0x2B || t.head? == some 0x2D

/-- The text after a beginning is a run of a class. -/
def isRunAfter (start : Text) (p : CodePoint → Bool) (t : Text) : Bool :=
  match Text.dropStart? start t with
  | some rest => isRun p rest
  | none => false

/-- One or two digits below sixty. -/
def isSixtieth (t : Text) : Bool :=
  match t with
  | [a] => a.isDigit
  | [a, b] => 0x30 ≤ a && a ≤ 0x35 && b.isDigit
  | _ => false

/-- A number to the base of sixty: parts with colons between them, of which `isFirst` takes the
first. -/
def isSexagesimal (isFirst : Text → Bool) (t : Text) : Bool :=
  match t.splitOn 0x3A with
  | first :: second :: more => isFirst first && (second :: more).all isSixtieth
  | _ => false

/-- A digit that is not zero, and digits and underscores. -/
def isLeadingNumber (t : Text) : Bool :=
  match t with
  | c :: t => c.isDigit && c != 0x30 && t.all isDigitOrGap
  | [] => false

/-- The scalar looks like an integer. -/
def looksInteger (v : Version) (t : Text) : Bool :=
  let u := unsigned t
  (t.headD 0 != 0x5F) &&
  (isRunAfter "0b" isBinaryOrGap u || isRunAfter "0x" isHexOrGap u ||
    if v = .old then
      isRun isOctalOrGap u || u == [0x30] || isLeadingNumber u ||
        isSexagesimal isLeadingNumber u
    else isRun isDigitOrGap u || isRunAfter "0o" isOctalOrGap u)

/-- A digit, and digits and underscores. -/
def isMantissa (t : Text) : Bool := (t.headD 0).isDigit && t.all isDigitOrGap

/-- An exponent is left out, or is a sign, which may be optional, and digits. -/
def isExponent (signOptional : Bool) (t : Text) : Bool :=
  match t with
  | [] => true
  | c :: t =>
    (c == 0x65 || c == 0x45) && (signOptional || isSigned t) && isRun CodePoint.isDigit (unsigned t)

/-- A text before an exponent, and the exponent with its letter. -/
def cutExponent (t : Text) : Text × Text := t.span fun c => c != 0x65 && c != 0x45

/-- The scalar looks like a floating point number. -/
def looksFloat (v : Version) (t : Text) : Bool :=
  let u := unsigned t
  let (mantissa, exponent) := cutExponent u
  let words : List Text := [".inf", ".Inf", ".INF"]
  let names : List Text := [".nan", ".NaN", ".NAN"]
  if u ∈ words ∨ t ∈ names then true
  else match Text.cutFirst? 0x2E mantissa with
    | none => isMantissa mantissa && !exponent.isEmpty && isExponent true exponent
    | some ([], fraction) =>
      isRun isDigitOrGap fraction && isExponent false exponent && (v != .old || !isSigned t)
    | some (whole, fraction) =>
      fraction.all isDigitOrGap &&
        ((isMantissa whole && isExponent true exponent) ||
          (v == .old && exponent.isEmpty && isSexagesimal isMantissa whole))

/-- The parts of a day: year, month and day. -/
def dayParts? (t : Text) : Option (Text × Text × Text) :=
  match t.splitOn 0x2D with
  | [y, m, d] =>
    if y.length = 4 ∧ isRun CodePoint.isDigit y ∧ isRun CodePoint.isDigit m ∧
        isRun CodePoint.isDigit d ∧ m.length ≤ 2 ∧ d.length ≤ 2 then some (y, m, d)
    else none
  | _ => none

/-- The parts of a zone: its text, its sign, and its hours and minutes. -/
structure ZoneParts where
  name : Text
  negative : Bool
  hours : Nat
  minutes : Nat
  deriving Repr

/-- The parts of a time. -/
structure TimeParts where
  hour : Nat
  minute : Nat
  second : Nat
  fraction : Text
  zone? : Option ZoneParts
  deriving Repr

/-- The number that digits write. -/
def numberOf (t : Text) : Nat := t.foldl (fun n c => n * 10 + (c - 0x30)) 0

/-- One or two digits. -/
def isShortNumber (t : Text) : Bool := isRun CodePoint.isDigit t && t.length ≤ 2

/-- Two digits. -/
def isTwoDigits (t : Text) : Bool := isRun CodePoint.isDigit t && t.length == 2

/-- The zone that a text writes; an empty text writes none. -/
def zoneParts? (t : Text) : Option (Option ZoneParts) :=
  match t.dropWhile (fun c => c == 0x20 || c == 0x09) with
  | [] => if t.isEmpty then some none else none
  | [0x5A] => some (some ⟨[0x5A], false, 0, 0⟩)
  | sign :: rest =>
    if sign = 0x2B ∨ sign = 0x2D then
      match rest.splitOn 0x3A with
      | [h] =>
        if isShortNumber h then some (some ⟨sign :: rest, sign == 0x2D, numberOf h, 0⟩) else none
      | [h, m] =>
        if isShortNumber h ∧ isTwoDigits m then
          some (some ⟨sign :: rest, sign == 0x2D, numberOf h, numberOf m⟩)
        else none
      | _ => none
    else none

/-- The time that a text writes. -/
def timeParts? (t : Text) : Option TimeParts := do
  let (hour, rest) ← Text.cutFirst? 0x3A t
  let (minute, rest) ← Text.cutFirst? 0x3A rest
  let second := rest.take 2
  let rest := rest.drop 2
  if !(isShortNumber hour && isTwoDigits minute && isTwoDigits second) then none
  let (fraction, rest) := match rest with
    | 0x2E :: rest => rest.span CodePoint.isDigit
    | rest => ([], rest)
  let zone? ← zoneParts? rest
  return ⟨numberOf hour, numberOf minute, numberOf second, fraction, zone?⟩

/-- The parts of a day, and of a time on it if one is written: after a `T`, or after a gap. -/
def timestampParts? (t : Text) : Option ((Text × Text × Text) × Option TimeParts) :=
  let (day, rest) := t.span fun c => c.isDigit || c == 0x2D
  match dayParts? day, rest with
  | some day, [] => some (day, none)
  | some day, c :: rest =>
    if c = 0x54 ∨ c = 0x74 then (timeParts? rest).map fun time => (day, some time)
    else if c = 0x20 ∨ c = 0x09 then
      (timeParts? (rest.dropWhile fun c => c == 0x20 || c == 0x09)).map fun time => (day, some time)
    else none
  | none, _ => none

/-- The scalar looks like a day or a time. A day alone has two digits for the month and the day. -/
def looksTimestamp (t : Text) : Bool :=
  match timestampParts? t with
  | some ((_, m, d), none) => m.length == 2 && d.length == 2
  | some (_, some _) => true
  | none => false

/-- The tag that a plain scalar has if none is written. -/
def plainTag (v : Version) (t : Text) : Tag :=
  if t ∈ boolWords ∨ (v = .old ∧ t ∈ oldBoolWords) then .bool
  else if looksFloat v t then .float
  else if looksInteger v t then .int
  else if t = "<<" then .merge
  else if t ∈ nullWords then .null
  else if looksTimestamp t then .timestamp
  else if t = "=" then .value
  else .text

/-! ### Reading scalars -/

/-- An error about a value that does not exist. -/
def noValue {α : Type} (reason : Text) : Except Error α := .error (.noSuchValue .value reason)

/-- The digit that a code point is in bases up to sixteen. -/
def digitIn? (base : Nat) (c : CodePoint) : Option Nat := c.hexValue?.filter (· < base)

/-- The number that digits write in a base. -/
def natIn? (base : Nat) (t : Text) : Option Nat :=
  if t.isEmpty then none else t.foldlM (fun n c => (digitIn? base c).map (n * base + ·)) 0

/-- The number that digits write in a base; anything else is refused. -/
def natIn (base : Nat) (t : Text) : Except Error Nat :=
  match natIn? base t with
  | some n => .ok n
  | none => noValue (("invalid literal for int() with base " : Text) ++ Text.ofNat base ++
      (": " : Text) ++ Text.quoted t)

/-- The text without underscores. -/
def withoutGaps (t : Text) : Text := t.filter (· ≠ 0x5F)

/-- The number whose digits to the base of sixty are given. -/
def sexagesimal (digits : List Nat) : Nat := digits.foldl (fun n d => n * 60 + d) 0

/-- What is said of a scalar that has no code point where one is needed. -/
def emptyScalar {α : Type} : Except Error α :=
  .error (.noSuchValue .index "string index out of range")

/-- The size of the integer that a scalar without sign and underscores writes. -/
def readMagnitude (v : Version) (t : Text) : Except Error Nat :=
  match t with
  | [0x30] => .ok 0
  | 0x30 :: 0x62 :: t => natIn 2 t
  | 0x30 :: 0x78 :: t => natIn 16 t
  | 0x30 :: 0x6F :: t => natIn 8 t
  | t =>
    if v = .old then
      if t.isEmpty then emptyScalar
      else if t.head? = some 0x30 then natIn 8 t
      else if 0x3A ∈ t then ((t.splitOn 0x3A).mapM (natIn 10)).map sexagesimal
      else natIn 10 t
    else natIn 10 t

/-- The integer that a scalar writes. -/
def readInteger (v : Version) (t : Text) : Except Error Int := do
  let t := withoutGaps t
  if t.isEmpty then emptyScalar
  let n ← readMagnitude v (unsigned t)
  return if t.head? = some 0x2D then -(n : Int) else n

/-- The digits of a decimal without its point, and how many of them stand after the point. -/
def decimalDigits? (t : Text) : Option (Nat × Nat) :=
  let (whole, fraction) := (Text.cutFirst? 0x2E t).getD (t, [])
  if isRun CodePoint.isDigit (whole ++ fraction) then
    some (numberOf (whole ++ fraction), fraction.length)
  else none

/-- The floating point number that a decimal with an exponent writes. -/
def decimal? (negative : Bool) (t : Text) : Option Binary64 := do
  let (mantissa, exponent) := cutExponent t
  let (digits, places) ← decimalDigits? mantissa
  if !isExponent true exponent then none
  let e := exponent.drop 1
  let size : Int := numberOf (unsigned e)
  let size := if e.head? = some 0x2D then -size else size
  return .ofDecimal negative digits (size - places)

/-- The floating point number that a number to the base of sixty writes. -/
def sexagesimalFloat? (negative : Bool) (t : Text) : Option Binary64 := do
  let parts ← (t.splitOn 0x3A).mapM decimalDigits?
  let places := parts.foldl (fun most part => max most part.2) 0
  let scaled := parts.map fun (digits, p) => digits * Nat.pow 10 (places - p)
  return .ofRatio negative (sexagesimal scaled) (Nat.pow 10 places)

/-- The floating point number that a scalar writes. -/
def readFloat (v : Version) (t : Text) : Except Error Binary64 :=
  let t := (withoutGaps t).toLower
  let u := unsigned t
  let negative := t.head? == some 0x2D
  if t.isEmpty then emptyScalar
  else if u = ".inf" then .ok (.infinity negative)
  else if u = ".nan" then .ok .nan
  else
    let read? := if v = .old ∧ 0x3A ∈ u then sexagesimalFloat? negative u else decimal? negative u
    match read? with
    | some x => .ok x
    | none => noValue (("could not convert string to float: " : Text) ++ Text.quoted u)

/-- The words for true and for false, in lower case. -/
def boolValues : List (Text × Bool) :=
  [("yes", true), ("no", false), ("y", true), ("n", false), ("true", true), ("false", false),
    ("on", true), ("off", false)]

/-- The truth value that a scalar writes. -/
def readBool (t : Text) : Except Error Bool :=
  match boolValues.lookup t.toLower with
  | some b => .ok b
  | none => .error (.noSuchValue .key (Text.quoted t.toLower))

/-- The microseconds in a second. -/
abbrev secondParts : Nat := 1000000

/-- The microseconds that the digits of a fraction write: six digits count, and the next one rounds.
A second that is full is told apart. -/
def microseconds (fraction : Text) : Nat :=
  let six := fraction.take 6
  let n := numberOf six * Nat.pow 10 (6 - six.length)
  match fraction.drop 6 with
  | c :: _ => if 0x34 < c then n + 1 else n
  | [] => n

/-- The zone with the given parts. Zones are less than a day away from universal time. -/
def zoneOf (z : ZoneParts) : Except Error Zone :=
  let minutes : Int := z.hours * 60 + z.minutes
  let zone : Zone := ⟨if z.negative then -minutes else minutes, z.name⟩
  if minutes < 1440 then .ok zone
  else noValue (("offset must be a timedelta strictly between -timedelta(hours=24) and " : Text) ++
    ("timedelta(hours=24), not " : Text) ++ zone.shownDistance ++ ("." : Text))

/-- The numbers of a time must be those of a clock. -/
def checkClock (hour minute second : Nat) : Except Error Unit :=
  if 23 < hour then noValue "hour must be in 0..23"
  else if 59 < minute then noValue "minute must be in 0..59"
  else if 59 < second then noValue "second must be in 0..59"
  else .ok ()

/-- The day of three numbers. -/
def dayOf : Text × Text × Text → Except Error Day
  | (y, m, d) =>
    (Day.ofNumbers (numberOf y) (numberOf m) (numberOf d)).mapError (.noSuchValue .value)

/-- The day or time that a scalar writes. A fraction that rounds to a full second is carried on. -/
def readTimestamp (t : Text) : Except Error (Day ⊕ Timestamp) := do
  match timestampParts? t with
  | none => throw .malformed
  | some (day, none) => return .inl (← dayOf day)
  | some (day, some time) =>
    let zone? ← time.zone?.mapM zoneOf
    let day ← dayOf day
    checkClock time.hour time.minute time.second
    let fraction := microseconds time.fraction
    let exact : Timestamp :=
      ⟨day, time.hour, time.minute, time.second, if fraction = secondParts then 0 else fraction,
        zone?⟩
    return .inr (if fraction = secondParts then exact.nextSecond else exact)

end Jarsmith.Yaml
