import SpanishLua.Command.Invocation
import SpanishLua.Command.Report
import SpanishLua.Command.Selection
import SpanishLua.Config.Discovery
import SpanishLua.Config.Json

/-!
The commands as functions from a tree of files to what they tell and the tree that they leave.
-/

namespace SpanishLua.Command

open Files

/-- Why a command could not run. -/
inductive CommandError where
  | noDirectory (fault : FileFault)
  | unreadableConfig (path : TreePath) (fault : FileFault)
  | malformedConfig (path : TreePath) (fault : Json.Fault)
  | invalidConfig (error : ConfigError)
  | invalidRules (path : Option TreePath) (error : ConfigError)
  | invalidTable (error : RuleError)
  | unwritable (path : TreePath) (fault : FileFault)
  | uncreated (fault : FileFault)
deriving DecidableEq

/-- A part of the wording of a command error. -/
inductive Cause where
  | text (text : String)
  | json (fault : Json.Fault)
deriving DecidableEq

/-- The wording of a command error, the outermost part first. -/
def CommandError.chain : CommandError → List Cause
  | noDirectory fault => [.text "Failed to read current directory", .text fault.message]
  | unreadableConfig path fault =>
      [.text s!"Failed to read config file: {path.text}", .text fault.message]
  | malformedConfig path fault =>
      [.text s!"Failed to parse config file: {path.text}", .json fault]
  | invalidConfig error => error.chain.map .text
  | invalidRules path error =>
      let source := (path.map TreePath.text).getD "built-in defaults"
      .text s!"Failed to build rules from {source}" :: error.chain.map .text
  | invalidTable error => [.text "Failed to build translator", .text error.message]
  | unwritable path fault =>
      [.text s!"Failed to write file: {path.text}", .text fault.message]
  | uncreated fault => [.text fault.message]

/-- How a command ends. It is aborted when the configured extension makes no path. -/
inductive Outcome where
  | report (report : Report)
  | error (error : CommandError)
  | aborted
deriving DecidableEq

/-- What a command has at hand: the configuration and its translator. -/
structure Context where
  config : Config
  translator : Translator

/-- The configuration of the directory with the given path, and the path that it was read from. -/
def loadFrom (t : FileTree) (cwd : Location) (start : TreePath) :
    Except CommandError (Config × Option TreePath) :=
  match Config.discover t cwd start with
  | none => .ok ({}, none)
  | some path =>
      match t.read cwd path with
      | .error fault => .error (.unreadableConfig path fault)
      | .ok s =>
          match Config.ofText s.toList with
          | .error fault => .error (.malformedConfig path fault)
          | .ok config =>
              match config.fault? with
              | some e => .error (.invalidConfig e)
              | none => .ok (config, some path)

/-- The configuration of the working directory, which must still be there. -/
def loadConfig (t : FileTree) (cwd : Location) : Except CommandError (Config × Option TreePath) :=
  match t.get? cwd with
  | some .directory => loadFrom t cwd cwd.path
  | _ => .error (.noDirectory .missing)

/-- The context of a working directory. -/
def Context.load (t : FileTree) (cwd : Location) : Except CommandError Context :=
  match loadConfig t cwd with
  | .error e => .error e
  | .ok (config, path) =>
      match config.ruleTable with
      | .error e => .error (.invalidRules path e)
      | .ok rules =>
          match Translator.ofTable rules config.forbiddenWords with
          | .error e => .error (.invalidTable e)
          | .ok translator => .ok { config, translator }

/-- The Lua text of a file. The label names the file in what goes wrong. -/
def translateFile (t : FileTree) (cwd : Location) (translator : Translator) (input : TreePath)
    (label : String) : Except Failure (List Char) :=
  match t.read cwd input with
  | .error fault => .error (.unreadable label fault)
  | .ok s =>
      match translator.translate s.toList label with
      | .error e => .error (.ofDocument label s.toList e)
      | .ok lua => .ok lua

/-- Writes the Lua text of a file to a path, which must not be spelt as the file itself. -/
def translateTo (t : FileTree) (cwd : Location) (translator : Translator)
    (input output : TreePath) : Outcome × FileTree :=
  if output.same input then
    (.report (.failed (.usage input.text "output would overwrite the input file")), t)
  else
    match translateFile t cwd translator input input.text with
    | .error failure => (.report (.failed failure), t)
    | .ok lua =>
        match t.write cwd output (String.ofList lua) with
        | (some fault, t) => (.error (.unwritable output fault), t)
        | (none, t) => (.report (.translated input output), t)

/-- Tells the Lua text of a file. -/
def translateToStdout (t : FileTree) (cwd : Location) (translator : Translator) (input : TreePath) :
    Report :=
  match translateFile t cwd translator input input.text with
  | .error failure => .failed failure
  | .ok lua => .printed lua

/-- Translates one file. -/
def translate (t : FileTree) (cwd : Location) (input : TreePath) (destination : Destination) :
    Outcome × FileTree :=
  if t.isFile cwd input then
    match Context.load t cwd with
    | .error e => (.error e, t)
    | .ok context =>
        match destination with
        | .stdout => (.report (translateToStdout t cwd context.translator input), t)
        | .file output => translateTo t cwd context.translator input output
        | .beside =>
            match input.withExtension? context.config.extension with
            | none => (.aborted, t)
            | some output => translateTo t cwd context.translator input output
  else (.report (.failed (.usage input.text "input file not found")), t)

/-- The failure of a file, if it has no Lua text. -/
def failure? (t : FileTree) (cwd : Location) (translator : Translator) (path : TreePath) :
    Option Failure :=
  match translateFile t cwd translator path path.display with
  | .error failure => some failure
  | .ok _ => none

/-- The failures of roots that stand for nothing and those of files, in the order of reports. -/
def arrange (missing : List TreePath) (ofFiles : List Failure) : List Failure :=
  (missing.map (fun root => Failure.usage root.text "path not found") ++ ofFiles).mergeSort
    Failure.le

/-- The failures of a selection. -/
def failures (t : FileTree) (cwd : Location) (translator : Translator) (s : Selection) :
    List Failure :=
  arrange s.missing (s.files.filterMap (failure? t cwd translator))

/-- The roots that a check without roots has. -/
def defaultRoots : List TreePath :=
  [⟨"."⟩]

/-- Checks the files that roots stand for. -/
def check (t : FileTree) (cwd : Location) (roots : List TreePath) : Outcome :=
  match Context.load t cwd with
  | .error e => .error e
  | .ok context =>
      match context.config.patterns with
      | .error e => .error (.invalidConfig e)
      | .ok (includes, ignores) =>
          let roots := if roots.isEmpty then defaultRoots else roots
          let s := Selection.ofRoots t cwd ⟨includes, ignores⟩ roots
          .report (.checked s.files.length (failures t cwd context.translator s))

/-- Creates the default configuration in a working directory that has none. -/
def create (t : FileTree) (cwd : Location) : Outcome × FileTree :=
  let path : TreePath := ⟨Config.fileName⟩
  if t.stands cwd path then
    (.report (.failed (.usage Config.fileName s!"{Config.fileName} already exists")), t)
  else
    match t.write cwd path (String.ofList ({} : Config).toText) with
    | (some fault, t) => (.error (.uncreated fault), t)
    | (none, t) => (.report (.created path), t)

/-- Carries out what a command line asks for. -/
def Invocation.run (t : FileTree) (cwd : Location) : Invocation → Outcome × FileTree
  | .overview => (.report .overview, t)
  | .translate input destination _ => Command.translate t cwd input destination
  | .check roots _ => (Command.check t cwd roots, t)
  | .init => create t cwd

end SpanishLua.Command
