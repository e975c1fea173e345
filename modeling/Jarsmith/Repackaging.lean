import Jarsmith.Archive.Encode
import Jarsmith.Archive.Extra
import Jarsmith.Archive.Open
import Jarsmith.Archive.UnitName
import Jarsmith.Modification
import Jarsmith.Session

/-!
# Repackaging archives

An archive is written anew, member by member in the order of its directory. Members may be dropped,
and the data of class members changed; everything else is taken over. The output is begun before
the first member is read and completed whatever happens, so that after a failure it holds the
members before it.
-/

namespace Jarsmith

namespace Repackaging

/-- What to do with the members of an archive. -/
structure Plan where
  /-- Whether the member of a name is kept; without it all are. -/
  keeps? : Option (Text → Bool)
  /-- How the data of class members are changed; without it they stay as they are. -/
  editor? : Option Editor
  /-- How hard the data are made small. -/
  level : Deflate.Level

/-- What became of the members of an archive. -/
structure Stats where
  total : Nat
  kept : Nat
  dropped : Nat
  modified : Nat
  inputSize : Nat
  deriving DecidableEq, Repr

/-- The member is kept. -/
def Plan.keeps (p : Plan) (name : Text) : Bool :=
  match p.keeps? with
  | some keeps => keeps name
  | none => true

/-- What is recorded of a member in the output: all but the records of large archives. -/
def newEntry (m : Archive.Member) : Archive.Entry :=
  { m.toEntry with extra := Archive.Extra.dropLarge m.extra }

/-- The data of a class member after the editor; `label` names the member in reports. -/
def edit (a : OpenArchive) (member : Text) (r : Editor) (data : Bytes) :
    Except Fault Bytes :=
  match r data with
  | .error e => .error (.transformation (a.label member) e)
  | .ok (.other type) => .error (.notBytes a.path.name member type)
  | .ok (.bytes data) => .ok data

/-- The data to be written for a kept member: those of the member, and in a class member what the
editor makes of them. -/
def newData (p : Plan) (a : OpenArchive) (bytes : Bytes) (m : Archive.Member) :
    Except Fault Bytes := do
  a.checkMethod m
  let data ← a.readFrom bytes m
  match p.editor? with
  | some r => if Archive.isClass m.name then edit a m.name r data else return data
  | none => return data

/-- The member to be written for a kept one, whose data are read from the bytes given. A name may
be longer in UTF-8 than it was, and then too long to be written. -/
def newMember (p : Plan) (a : OpenArchive) (bytes : Bytes) (m : Archive.Member) :
    Except Fault Archive.NewMember := do
  let new : Archive.NewMember := ⟨newEntry m, ← newData p a bytes m, p.level⟩
  if new.isWritable then return new else throw .fieldOverflow

/-- What a run over members gives: the members to be written, the numbers of members seen, dropped
and modified, the events, and the failure that ended the run, if one did. -/
structure Outcome where
  written : List Archive.NewMember
  seen : Nat
  dropped : Nat
  modified : Nat
  events : List Log.Event
  failure? : Option Fault

/-- Goes through members until one fails. -/
def processMembers (p : Plan) (a : OpenArchive) (bytes : Bytes) : List Archive.Member → Outcome
  | [] => ⟨[], 0, 0, 0, [], none⟩
  | m :: members =>
    if p.keeps m.name then
      match newMember p a bytes m with
      | .error e => ⟨[], 1, 0, 0, [], some e⟩
      | .ok new =>
        let rest := processMembers p a bytes members
        let isModified := p.editor?.isSome && Archive.isClass m.name
        { rest with
          written := new :: rest.written
          seen := rest.seen + 1
          modified := rest.modified + (if isModified then 1 else 0) }
    else
      let rest := processMembers p a bytes members
      let event := Log.event .debug .repack
        (a.path.name ++ (": 移除 " : Text) ++ m.name)
      { rest with
        seen := rest.seen + 1
        dropped := rest.dropped + 1
        events := event :: rest.events }

/-- How an output that is there already is treated. -/
def writeMode (strict : Bool) : FileSystem.WriteMode := if strict then .create else .replace

/-- Writes an archive anew. The data are read after the output was begun, which empties the input
if both are one file. -/
def repackage (strict : Bool) (p : Plan) (input output : Path) : Session Stats := do
  let inputSize ← Session.ask (·.size input)
  let a ← (OpenArchive.load (← get).files input : Except Fault OpenArchive)
  Session.change fun files => files.write (writeMode strict) output []
  let bytes ← Session.ask (·.read input)
  let run := processMembers p a bytes a.archive.members
  Session.emitAll run.events
  Session.change fun files => files.write .replace output (Archive.encode run.written)
  if let some e := run.failure? then throw e
  let outputSize ← Session.ask (·.size output)
  Session.report .info .repack (input.name ++ (" -> " : Text) ++ output.name ++
    (": 保留 " : Text) ++ Text.ofNat run.written.length ++ (" 个成员, 移除 " : Text) ++
    Text.ofNat run.dropped ++ (" 个, 修改 " : Text) ++ Text.ofNat run.modified ++
    (" 个类 (" : Text) ++ Text.ofSize inputSize ++ (" -> " : Text) ++ Text.ofSize outputSize ++
    (")" : Text))
  return {
    total := run.seen, kept := run.written.length, dropped := run.dropped,
    modified := run.modified, inputSize }

/-- Copies an archive as it is. -/
def copy (strict : Bool) (input output : Path) : Session Unit := do
  if strict then
    if ← Session.ask (·.exists? output) then throw (.files (.outputExists output))
  Session.change (·.copy input output)
  let size ← Session.ask (·.size output)
  Session.report .info .repack (input.name ++ (" -> " : Text) ++ output.name ++
    (": 原样复制 (" : Text) ++ Text.ofSize size ++ (")" : Text))

end Repackaging

/-- The name of the manifest. -/
def manifestName : Text := "classpath.txt"

/-- Writes the manifest, the names one a line without an end of the last line. Gives its path. -/
def writeManifest (strict : Bool) (directory : Path) (elements : List Text) : Session Path := do
  let path := directory.child manifestName
  Session.change fun files => files.write (Repackaging.writeMode strict) path []
  let text := Text.joinWith [0x0A] elements
  match Utf8.encode? text with
  | none => throw (.unencodable text)
  | some bytes =>
    Session.change fun files => files.write .replace path bytes
    return path

end Jarsmith
