import Jarsmith.Text.Quoted

/-!
# Days and times in documents

A day of the calendar, and a time on a day, possibly with its distance from universal time.
-/

namespace Jarsmith

/-- A day of the calendar. -/
structure Day where
  year : Nat
  month : Nat
  day : Nat
  deriving DecidableEq, Repr

/-- A distance from universal time, in minutes, and how it was written. -/
structure Zone where
  minutes : Int
  name : Text
  deriving DecidableEq, Repr

/-- A time on a day. -/
structure Timestamp where
  day : Day
  hour : Nat
  minute : Nat
  second : Nat
  microsecond : Nat
  zone? : Option Zone
  deriving DecidableEq, Repr

/-- Digits, with zeros before them up to a width. -/
def padded (width n : Nat) : Text :=
  let digits := Text.ofNat n
  List.replicate (width - digits.length) 0x30 ++ digits

namespace Day

/-- The number of days of a month. -/
def lengthOfMonth (year month : Nat) : Nat :=
  if month = 2 then
    if year % 4 = 0 ∧ (year % 100 ≠ 0 ∨ year % 400 = 0) then 29 else 28
  else if month = 4 ∨ month = 6 ∨ month = 9 ∨ month = 11 then 30
  else 31

/-- The day that three numbers mean, or what is wrong with them. -/
def ofNumbers (year month day : Nat) : Except Text Day :=
  if year = 0 ∨ 9999 < year then
    .error (("year " : Text) ++ Text.ofNat year ++ (" is out of range" : Text))
  else if month = 0 ∨ 12 < month then .error "month must be in 1..12"
  else if day = 0 ∨ lengthOfMonth year month < day then
    .error "day is out of range for month"
  else .ok ⟨year, month, day⟩

/-- The day after a day. -/
def next (d : Day) : Day :=
  if d.day < lengthOfMonth d.year d.month then { d with day := d.day + 1 }
  else if d.month < 12 then ⟨d.year, d.month + 1, 1⟩
  else ⟨d.year + 1, 1, 1⟩

/-- Year, month and day between hyphens. -/
def toText (d : Day) : Text :=
  padded 4 d.year ++ 0x2D :: padded 2 d.month ++ 0x2D :: padded 2 d.day

/-- The numbers of a day, separated by commas. -/
def numbers (d : Day) : List Text := [Text.ofNat d.year, Text.ofNat d.month, Text.ofNat d.day]

/-- How a day is shown in messages. -/
def shown (d : Day) : Text :=
  ("datetime.date(" : Text) ++ Text.joinWith ", " d.numbers ++ (")" : Text)

end Day

namespace Zone

/-- The distance as a sign, hours and minutes. -/
def offset (z : Zone) : Text :=
  let size := z.minutes.natAbs
  (if z.minutes < 0 then 0x2D else 0x2B) :: padded 2 (size / 60) ++
    0x3A :: padded 2 (size % 60)

/-- How the distance is shown in messages: as a number of days and of seconds within a day. -/
def shownDistance (z : Zone) : Text :=
  let seconds := z.minutes * 60
  let part (name : Text) (n : Int) : List Text := if n = 0 then [] else [name ++ Text.ofInt n]
  let parts := part "days=" (seconds / 86400) ++ part "seconds=" (seconds % 86400)
  ("datetime.timedelta(" : Text) ++
    (if parts.isEmpty then ("0" : Text) else Text.joinWith ", " parts) ++ (")" : Text)

/-- How a zone is shown in messages. -/
def shown (z : Zone) : Text :=
  ("datetime.timezone(" : Text) ++ z.shownDistance ++ (", " : Text) ++ Text.quoted z.name ++
    (")" : Text)

end Zone

namespace Timestamp

/-- The time one second later. -/
def nextSecond (t : Timestamp) : Timestamp :=
  if t.second < 59 then { t with second := t.second + 1 }
  else if t.minute < 59 then { t with second := 0, minute := t.minute + 1 }
  else if t.hour < 23 then { t with second := 0, minute := 0, hour := t.hour + 1 }
  else { t with second := 0, minute := 0, hour := 0, day := t.day.next }

/-- Day and time, with `separator` between them. -/
def toTextWith (separator : CodePoint) (t : Timestamp) : Text :=
  let fraction := if t.microsecond = 0 then [] else 0x2E :: padded 6 t.microsecond
  let zone := match t.zone? with
    | some z => z.offset
    | none => []
  t.day.toText ++ separator :: padded 2 t.hour ++ 0x3A :: padded 2 t.minute ++
    0x3A :: padded 2 t.second ++ fraction ++ zone

/-- Day and time, with a `T` between them. -/
def toText (t : Timestamp) : Text := t.toTextWith 0x54

/-- How a time is shown in messages: zero seconds and fractions are left out. -/
def shown (t : Timestamp) : Text :=
  let small :=
    if t.microsecond ≠ 0 then [Text.ofNat t.second, Text.ofNat t.microsecond]
    else if t.second ≠ 0 then [Text.ofNat t.second]
    else []
  let zone := match t.zone? with
    | some z => [("tzinfo=" : Text) ++ z.shown]
    | none => []
  ("datetime.datetime(" : Text) ++
    Text.joinWith ", "
      (t.day.numbers ++ [Text.ofNat t.hour, Text.ofNat t.minute] ++ small ++ zone) ++
    (")" : Text)

end Timestamp

end Jarsmith
