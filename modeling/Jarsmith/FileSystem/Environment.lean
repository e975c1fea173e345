import Jarsmith.FileSystem.Path

/-!
# Variables and home directories in paths

A path text may name variables, as `$NAME` or between braces, and begin with a tilde for the home
directory. Variables are replaced first, once, and those that are not set stay as they are written;
then a tilde at the beginning is replaced.
-/

namespace Jarsmith

/-- What paths may refer to. -/
structure Environment where
  /-- The values of the variables by their names. -/
  values : List (Text × Text)
  /-- The home directories of the users by their names. -/
  homes : List (Text × Text)
  deriving Repr

namespace Environment

/-- The variable that holds the home directory. -/
def homeVariable : Text := "HOME"

/-- The user whose home directory counts if that variable is not set. -/
def mainUser : Text := "root"

/-- What the name of a variable consists of, outside braces: ASCII letters, digits and `_`. -/
def isNamePoint (c : CodePoint) : Bool := c.isLetter || c.isDigit || c == 0x5F

/-- The name of the variable after a dollar sign, and the text after it. -/
def cutVariable? (t : Text) : Option (Text × Text) :=
  match t with
  | 0x7B :: rest => Text.cutFirst? 0x7D rest
  | _ =>
    let name := t.takeWhile isNamePoint
    if name.isEmpty then none else some (name, t.drop name.length)

/-- Replaces the variables of a text; `fuel` bounds their number. -/
def replaceVariables (env : Environment) : (fuel : Nat) → Text → Text
  | 0, t => t
  | _ + 1, [] => []
  | fuel + 1, c :: t =>
    if c = 0x24 then
      match cutVariable? t with
      | none => c :: env.replaceVariables fuel t
      | some (name, rest) =>
        let written := t.take (t.length - rest.length)
        (env.values.lookup name).getD (c :: written) ++ env.replaceVariables fuel rest
    else c :: env.replaceVariables fuel t

/-- Replaces a tilde at the beginning, with the name of a user or without. -/
def replaceHome (env : Environment) (t : Text) : Text :=
  match t with
  | 0x7E :: rest =>
    let user := rest.takeWhile (· ≠ Path.slash)
    let home? :=
      if user.isEmpty then (env.values.lookup homeVariable).or (env.homes.lookup mainUser)
      else env.homes.lookup user
    match home? with
    | none => t
    | some home =>
      let path := Text.trimEnd (· == Path.slash) home ++ rest.drop user.length
      if path.isEmpty then [Path.slash] else path
  | _ => t

/-- Replaces variables and a tilde. -/
def replace (env : Environment) (t : Text) : Text :=
  env.replaceHome (env.replaceVariables (t.length + 1) t)

/-- The absolute path that a path text means, as seen from `base?`, or from the working directory if
there is none. -/
def expand (env : Environment) (workingDirectory : List Text) (base? : Option Path) (t : Text) :
    Path :=
  let path := Path.ofText (env.replace t)
  let path := match base? with
    | some base => base.under path
    | none => path
  path.resolve workingDirectory

end Environment

end Jarsmith
