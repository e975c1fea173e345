import Jarsmith.CommandLine.Options
import Jarsmith.FileSystem.Path

/-!
# Commands

What the program is asked to do. A command line is a usage error if no command can be read from it.
-/

namespace Jarsmith.CommandLine

/-- What a build is asked for. -/
structure BuildOptions where
  /-- The path of the configuration file. -/
  file : Text
  /-- The output directory, in the stead of the one in the configuration. -/
  outputDirectory? : Option Text
  /-- An output file that is there already is an error. -/
  strict : Bool
  logFile? : Option Text
  verbose : Bool
  deriving DecidableEq, Repr

/-- What the program is asked to do. -/
inductive Command where
  | version
  | help
  | build (o : BuildOptions)
  | validate (file : Path) (asJson : Bool)
  | analyze (file : Path) (listsRemovable : Bool)
  /-- Write an example of a configuration to a file. -/
  | exampleFile (output : Text)
  deriving DecidableEq, Repr

namespace Command

/-- An option without a value. -/
def switch (name : Text) (letter? : Option CodePoint) : Choice := ⟨name, letter?, false⟩

/-- The option that asks for help. -/
def helpChoice : Choice := switch "help" none

/-- The option that asks for more reports. -/
def verboseChoice : Choice := switch "verbose" (some 0x76)

/-- The option that names the configuration file. -/
def configChoice : Choice := ⟨"config", some 0x63, true⟩

/-- The options that stand before the command. -/
def commonChoices : List Choice := [helpChoice, switch "version" none, verboseChoice]

/-- The options of a build. -/
def buildChoices : List Choice :=
  [helpChoice, configChoice, ⟨"output-dir", some 0x6F, true⟩, switch "strict" none,
    ⟨"log-file", none, true⟩, verboseChoice]

/-- The options of a validation. -/
def validateChoices : List Choice := [helpChoice, configChoice, switch "json" none]

/-- The options of an analysis. -/
def analyzeChoices : List Choice := [helpChoice, configChoice, switch "show-removable" none]

/-- The options of the command that writes an example. -/
def exampleChoices : List Choice := [helpChoice, ⟨"output", some 0x6F, true⟩]

/-- The file to which the example is written unless another is named. -/
def exampleName : Text := "classpack.yaml"

/-- Reads the arguments of a command, which has no other arguments than options. -/
def read? (choices : List Choice) (arguments : List Text) (command? : Arguments → Option Command) :
    Option Command :=
  match Arguments.read? choices true arguments with
  | none => none
  | some a =>
    if a.has "help" then some help
    else if a.rest.isEmpty then command? a else none

/-- Reads the arguments of the command of the given name. -/
def ofName? (name : Text) (arguments : List Text) : Option Command :=
  if name = "build" then
    read? buildChoices arguments fun a => (a.value? "config").map fun file => build {
      file
      outputDirectory? := a.value? "output-dir"
      strict := a.has "strict"
      logFile? := a.value? "log-file"
      verbose := a.has "verbose" }
  else if name = "validate" then
    read? validateChoices arguments fun a => (a.value? "config").map fun file =>
      validate (.ofText file) (a.has "json")
  else if name = "analyze" then
    read? analyzeChoices arguments fun a => (a.value? "config").map fun file =>
      analyze (.ofText file) (a.has "show-removable")
  else if name = "example" then
    read? exampleChoices arguments fun a =>
      some (exampleFile ((a.value? "output").getD exampleName))
  else none

end Command

/-- A command line. -/
structure Invocation where
  /-- More is to be reported, whatever the command. -/
  verbose : Bool
  command : Command
  deriving DecidableEq, Repr

/-- Reads a command line. -/
def Invocation.ofArguments? (arguments : List Text) : Option Invocation :=
  match Arguments.read? Command.commonChoices false arguments with
  | none => none
  | some a =>
    let verbose := a.has "verbose"
    match a.given.find? fun (name, _) => name = "version" ∨ name = "help" with
    | some (name, _) => some ⟨verbose, if name = "version" then .version else .help⟩
    | none =>
      match a.rest with
      | [] => none
      | name :: arguments => (Command.ofName? name arguments).map (⟨verbose, ·⟩)

end Jarsmith.CommandLine
