import Jarsmith.Text.Basic

/-!
# Options of a command line

An option is known by a long name, which begins with two hyphens, and possibly by a letter. Its
value is the next argument, or follows an equals sign after the long name, or follows the letter at
once. Options without a value can share one hyphen, as in `-vc`. Two hyphens alone end the options.
-/

namespace Jarsmith.CommandLine

/-- An option. -/
structure Choice where
  /-- The name without its hyphens. -/
  name : Text
  letter? : Option CodePoint
  takesValue : Bool
  deriving DecidableEq, Repr

/-- Options as they were given, with their values, and the other arguments. -/
structure Arguments where
  given : List (Text × Text)
  rest : List Text
  deriving DecidableEq, Repr

namespace Arguments

/-- The option was given. -/
def has (a : Arguments) (name : Text) : Bool := a.given.any (·.1 = name)

/-- The value of an option; of several values the last one counts. -/
def value? (a : Arguments) (name : Text) : Option Text := a.given.reverse.lookup name

end Arguments

/-- What an argument with a hyphen comes to: options with their values, and possibly one that takes
the next argument for its value. -/
structure Recognized where
  given : List (Text × Text)
  waiting? : Option Text
  deriving DecidableEq, Repr

/-- The hyphen. -/
abbrev hyphen : CodePoint := 0x2D

/-- Reads letters after one hyphen. -/
def recognizeLetters? (choices : List Choice) : Text → Option Recognized
  | [] => some ⟨[], none⟩
  | c :: t =>
    match choices.find? (·.letter? = some c) with
    | none => none
    | some choice =>
      if choice.takesValue then
        if t.isEmpty then some ⟨[], some choice.name⟩ else some ⟨[(choice.name, t)], none⟩
      else (recognizeLetters? choices t).map fun r =>
        { r with given := (choice.name, []) :: r.given }

/-- Reads a long name, and a value behind an equals sign. -/
def recognizeName? (choices : List Choice) (t : Text) : Option Recognized :=
  let (name, value?) := match Text.cutFirst? 0x3D t with
    | some (name, value) => (name, some value)
    | none => (t, none)
  match choices.find? (·.name = name) with
  | none => none
  | some choice =>
    match choice.takesValue, value? with
    | true, some value => some ⟨[(name, value)], none⟩
    | true, none => some ⟨[], some name⟩
    | false, none => some ⟨[(name, [])], none⟩
    | false, some _ => none

/-- What an argument comes to, where it begins with a hyphen and has more. -/
def recognize? (choices : List Choice) : Text → Option Recognized
  | 0x2D :: 0x2D :: t => recognizeName? choices t
  | _ :: t => recognizeLetters? choices t
  | [] => none

/-- The argument may be an option. -/
def mayBeOption : Text → Bool
  | 0x2D :: _ :: _ => true
  | _ => false

/-- Puts options before those of arguments. -/
def Arguments.prepend (given : List (Text × Text)) (a : Arguments) : Arguments :=
  { a with given := given ++ a.given }

/-- Reads arguments. Other arguments may stand between the options if `mixed`; otherwise the options
end at the first of them. Fails at an option that is not known, that lacks its value, or that has a
value but takes none. -/
def Arguments.read? (choices : List Choice) (mixed : Bool) : List Text → Option Arguments
  | [] => some ⟨[], []⟩
  | argument :: rest =>
    if argument = [hyphen, hyphen] then some ⟨[], rest⟩
    else if mayBeOption argument then
      match recognize? choices argument with
      | none => none
      | some ⟨given, none⟩ => (read? choices mixed rest).map (prepend given)
      | some ⟨given, some name⟩ =>
        match rest with
        | [] => none
        | value :: rest => (read? choices mixed rest).map (prepend (given ++ [(name, value)]))
    else if mixed then
      (read? choices mixed rest).map fun a => { a with rest := argument :: a.rest }
    else some ⟨[], argument :: rest⟩

end Jarsmith.CommandLine
