import Jarsmith.Archive.Open
import Jarsmith.Configuration.Model
import Jarsmith.Log.Traced

/-!
# Entry points

The classes from which everything that is kept must be reached. They are named in the configuration,
as the values of property files inside the archives, and line by line in service files inside the
archives. Everywhere the first occurrence of a name counts.
-/

namespace Jarsmith

namespace EntryPoint

/-- The values of a property file, without blanks at their ends and without empty ones. -/
def ofProperties (data : Bytes) : Except Fault (List Text) :=
  let subject : Text := "属性文件解析失败"
  match Utf8.decode data with
  | none => .error (.unparsable subject .notUtf8)
  | some text =>
    match Properties.parse text with
    | .error e => .error (.unparsable subject (.properties e))
    | .ok properties =>
      .ok (Text.unique ((properties.map fun (_, value) => value.trimBlanks).filter (!·.isEmpty)))

/-- The names in a service file: the lines without comments and without blanks at their ends. -/
def ofServices (data : Bytes) : Except Fault (List Text) :=
  match Utf8.decode data with
  | none => .error (.unparsable "服务注册文件解析失败" .notUtf8)
  | some text =>
    let names := text.lines.map fun line => Text.trimBlanks (line.takeWhile (· ≠ 0x23))
    .ok (Text.unique (names.filter (!·.isEmpty)))

/-- Reads the members of the given names, as far as the archive has them. -/
def ofMembers (a : OpenArchive) (read : Bytes → Except Fault (List Text)) :
    (names : List Text) → Traced (List Text)
  | [] => return []
  | name :: names => do
    match a.member? name with
    | none => ofMembers a read names
    | some m =>
      let found ← match (do read (← a.read m) : Except Fault (List Text)) with
        | .ok found => pure found
        | .error e => throw (wrap name e)
      Traced.report (Log.event .debug .analyze
        (a.label name ++ (": " : Text) ++ Text.ofNat found.length ++ (" 个入口点" : Text)))
      return found ++ (← ofMembers a read names)
where
  /-- What cannot be parsed is told with the member; every other fault stays as it is. -/
  wrap (name : Text) (e : Fault) : Fault :=
    match e with
    | .unparsable _ _ | .classFile _ => .unparsable (a.label name) e
    | _ => e

/-- Where entry points come from. -/
structure Sources where
  configured : List Text
  propertyMembers : List Text
  serviceMembers : List Text
  deriving DecidableEq, Repr

/-- The sources that a task names, each once. -/
def Sources.ofTask (t : MinifyTask) : Sources :=
  ⟨Text.unique t.entryPoints, Text.unique t.propertyMembers, Text.unique t.serviceMembers⟩

/-- The entry points that an archive holds. Without members to look for it is not opened. -/
def Sources.ofArchive (s : Sources) (files : FileSystem) (path : Path) : Traced (List Text) := do
  if s.propertyMembers.isEmpty && s.serviceMembers.isEmpty then return []
  let a ← (OpenArchive.load files path : Except Fault OpenArchive)
  let fromProperties ← ofMembers a ofProperties s.propertyMembers
  let fromServices ← ofMembers a ofServices s.serviceMembers
  return Text.unique (fromProperties ++ fromServices)

/-- All entry points, the configured ones first, then archive by archive. -/
def Sources.resolve (s : Sources) (files : FileSystem) (archives : List Path) :
    Traced (List Text) := do
  let found ← archives.mapM (s.ofArchive files)
  return Text.unique (s.configured ++ found.flatten)

end EntryPoint

end Jarsmith
