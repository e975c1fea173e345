import Jarsmith.Configuration.Problem
import Jarsmith.FileSystem.Path
import Jarsmith.Text.Blank
import Jarsmith.Text.Utf8

/-!
# Simple values of configurations

How texts, paths, integers, truth values and lists are read off documents. Integers and truth values
may also be written as texts or as floating point numbers; texts and paths may not be anything else.
White space around texts and paths does not count.
-/

namespace Jarsmith.Document

/-- The text that a value is, if it is a text or bytes that write one. -/
def asText? : Document → Option (Checked Text)
  | d@(text t) => some (if t.any CodePoint.isSurrogate then .wrong .badText d else .valid t)
  | d@(bytes b) => some (match Utf8.decode b with
    | some t => .valid t
    | none => .wrong .badText d)
  | _ => none

/-- A text without the white space around it. -/
def checkText (d : Document) : Checked Text :=
  match d.asText? with
  | some t => t.map Text.trimWhiteSpace
  | none => .wrong .notText d

/-- A text with at least one code point besides the white space around it. -/
def checkName (d : Document) : Checked Text :=
  (d.checkText).andThen fun t => if t.isEmpty then .wrong .emptyText d else .valid t

/-- A path. -/
def checkPath (d : Document) : Checked Path :=
  match d.checkText with
  | .valid t => .valid (Path.ofText t)
  | .invalid _ => .wrong .notPath d

/-- The items of a list. -/
def checkList (d : Document) : Checked (List Document) :=
  match d with
  | list items | tuple items | set items => .valid items
  | _ => .wrong .notList d

/-- A list whose items pass a check. -/
def checkListOf {α : Type} (check : Document → Checked α) (d : Document) : Checked (List α) :=
  d.checkList.andThen (Checked.items check 0)

/-- A list with at least one item, all of which pass a check. -/
def checkSomeOf {α : Type} (check : Document → Checked α) (d : Document) : Checked (List α) :=
  (d.checkListOf check).andThen fun items =>
    if items.isEmpty then .wrong .noItem d else .valid items

/-- The number that digits write, which may have single underscores between them. -/
def ofDigits? : (sofar : Nat) → Text → Option Nat
  | n, [] => some n
  | n, 0x5F :: c :: t => if c.isDigit then ofDigits? (n * 10 + (c - 0x30)) t else none
  | n, c :: t => if c.isDigit then ofDigits? (n * 10 + (c - 0x30)) t else none

/-- The number that a text without a sign writes. At its beginning zeros and underscores in any
order are skipped, and at its end a point with zeros after it. -/
def magnitude? (t : Text) : Option Nat := do
  let whole ← match Text.cutFirst? 0x2E t with
    | none => some t
    | some (whole, fraction) => if fraction.all (· == 0x30) then some whole else none
  match whole with
  | [] => none
  | 0x30 :: rest =>
    match rest.dropWhile fun c => c == 0x30 || c == 0x5F with
    | [] => if whole.getLast? = some 0x30 then some 0 else none
    | c :: t => if c.isDigit then ofDigits? 0 (c :: t) else none
  | c :: t => if c.isDigit then ofDigits? 0 (c :: t) else none

/-- The integer that a text writes, with white space around it and a sign if there is one. -/
def ofIntegerText? (t : Text) : Option Int :=
  match t.trimWhiteSpace with
  | 0x2D :: t => (magnitude? t).map fun n => -(n : Int)
  | 0x2B :: t => (magnitude? t).map Int.ofNat
  | t => (magnitude? t).map Int.ofNat

/-- The least integer that a machine word of 64 bits holds. -/
abbrev leastWord : Int := -0x8000000000000000

/-- The integers that a machine word of 64 bits holds. -/
def isWord (n : Int) : Bool := leastWord ≤ n && n < -leastWord

/-- An integer. -/
def checkInteger (d : Document) : Checked Int :=
  match d with
  | int n => .valid n
  | bool b => .valid (if b then 1 else 0)
  | float x =>
    match x, x.toInt? with
    | .nan, _ | .infinity _, _ => .wrong .notFinite d
    | _, none => .wrong .fractional d
    | _, some n => if isWord n && n != leastWord then .valid n else .wrong .tooLarge d
  | _ =>
    match d.asText? with
    | none => .wrong .notInteger d
    | some t => t.andThen fun t =>
      match ofIntegerText? t with
      | some n => .valid n
      | none => .wrong .badIntegerText d

/-- An integer from `least` to `greatest`. -/
def checkIntegerIn (least : Int) (greatest? : Option Int) (d : Document) : Checked Int :=
  d.checkInteger.andThen fun n =>
    match greatest? with
    | some greatest =>
      if greatest < n then .wrong (.above greatest) d
      else if n < least then .wrong (.below least) d
      else .valid n
    | none => if n < least then .wrong (.below least) d else .valid n

/-- The texts for true, in lower case. -/
def trueTexts : List Text := ["1", "true", "t", "yes", "y", "on"]

/-- The texts for false, in lower case. -/
def falseTexts : List Text := ["0", "false", "f", "no", "n", "off"]

/-- A truth value. -/
def checkBool (d : Document) : Checked Bool :=
  match d with
  | bool b => .valid b
  | int n =>
    if n = 0 then .valid false
    else if n = 1 then .valid true
    else if isWord n then .wrong .badBool d
    else .wrong .notBool d
  | float x =>
    match x.toInt? with
    | some 0 => .valid false
    | some 1 => .valid true
    | _ => .wrong .notBool d
  | _ =>
    match d.asText? with
    | none => .wrong .notBool d
    | some t => t.andThen fun t =>
      if t.toLower ∈ trueTexts then .valid true
      else if t.toLower ∈ falseTexts then .valid false
      else .wrong .badBool d

end Jarsmith.Document
