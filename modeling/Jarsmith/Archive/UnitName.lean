import Jarsmith.Text.Digit

/-!
# Which class a member defines

A member whose name ends in `.class` defines the class that its path names. Archives for several
versions of the platform hold overriding definitions under `META-INF/versions/` and a number; they
define the same class as the path below that.
-/

namespace Jarsmith.Archive

/-- The ending of the members that define classes. -/
def classEnding : Text := ".class"

/-- The folder of overriding definitions. -/
def versionsFolder : Text := "META-INF/versions/"

/-- The path below the folder of a platform version, if the name stands in one: the folder's name
is one or more decimal digits, of any script. -/
def belowVersion? (name : Text) : Option Text := do
  let rest ← Text.dropStart? versionsFolder name
  if (rest.takeWhile CodePoint.isDecimal).isEmpty then none
  else match rest.dropWhile CodePoint.isDecimal with
    | 0x2F :: path => some path
    | _ => none

/-- The name stands in the folder of a platform version. -/
def isVersioned (name : Text) : Bool := (belowVersion? name).isSome

/-- The class that a member defines, with dots; `none` if it defines none. -/
def unitName? (name : Text) : Option Text := do
  let _ ← Text.dropEnd? classEnding name
  let path ← Text.dropEnd? classEnding ((belowVersion? name).getD name)
  return path.replace 0x2F 0x2E

/-- The member defines a class. -/
def isClass (name : Text) : Bool := (unitName? name).isSome

end Jarsmith.Archive
