import SpanishLua.Command.Run

/-!
The program: it shows a command the files that the command line is about, prints what the command
tells, and writes what the command has changed.
-/

namespace SpanishLua.Program

open Command Files

/-- The fault behind an error of the system. -/
def faultOf : IO.Error → FileFault
  | .permissionDenied .. => .system 13 "Permission denied"
  | _ => .system 5 "Input/output error"

/-- The tree in which access to a location is refused. -/
def refuse (t : FileTree) (access : Access) (l : Location) (fault : FileFault) : FileTree :=
  { t with refusal? := fun a m => if a = access ∧ m = l then some fault else t.refusal? a m }

/-- Puts what stands at a location of the disk into the tree. A link is put with the path of what it
stands for. -/
def observe (t : FileTree) (l : Location) : IO FileTree := do
  let path := (← IO.currentDir) / l.path.text
  match ← path.symlinkMetadata.toBaseIO with
  | .error _ => return t
  | .ok metadata =>
      match metadata.type with
      | .dir => return t.withDirectories [] l
      | .symlink => return t.put l (.link ⟨(← IO.FS.realPath path).toString⟩)
      | .other => return t.put l (.device .empty)
      | .file =>
          match ← (IO.FS.readBinFile path).toBaseIO with
          | .ok content => return t.withFile l content
          | .error e => return refuse (t.withFile l .empty) .read l (faultOf e)

/-- Observes every location on the way of a path, and returns where it leads. -/
def observePath (t : FileTree) (cwd : Location) (p : TreePath) : IO (FileTree × Location) := do
  let mut t := t
  let mut l := FileTree.start cwd p
  for piece in FileTree.pieces p do
    if piece == ".." then
      l := l.dropLast
    else if piece != "" && piece != "." then
      l := l ++ [piece]
      t ← observe t l
      if let some (.link target) := t.get? l then
        l := []
        for name in FileTree.pieces target do
          if name != "" then
            l := l ++ [name]
            t ← observe t l
  return (t, l)

/-- Observes all that stands below a location. -/
partial def observeBelow (t : FileTree) (l : Location) : IO FileTree := do
  let path := (← IO.currentDir) / l.path.text
  let mut t := t
  if t.get? l == some .directory then
    match ← path.readDir.toBaseIO with
    | .error e => t := refuse t .list l (faultOf e)
    | .ok entries =>
        for entry in entries do
          t ← observeBelow (← observe t (l ++ [entry.fileName])) (l ++ [entry.fileName])
  return t

/-- Observes what the search for a configuration looks at. -/
partial def observeConfig (t : FileTree) (l : Location) : IO FileTree := do
  let (t, _) ← observePath t l ⟨Config.fileName⟩
  let (t, _) ← observePath t l ⟨Config.repositoryMark⟩
  if l.isEmpty then return t else observeConfig t l.dropLast

/-- Observes the files that a command line names. -/
def observeNamed (t : FileTree) (cwd : Location) : Invocation → IO FileTree
  | .overview | .init => return t
  | .translate input destination _ => do
      let (t, _) ← observePath t cwd input
      match destination with
      | .file output => return (← observePath t cwd output).1
      | .beside | .stdout => return t
  | .check roots _ => do
      let mut t := t
      for root in if roots.isEmpty then defaultRoots else roots do
        let (seen, l) ← observePath t cwd root
        t ← observeBelow seen l
      return t

/-- Writes the files that differ from those before. -/
def commit (before after : FileTree) : IO Unit := do
  for (l, node) in after.nodes do
    if let .file content := node then
      if before.get? l != some node then IO.FS.writeBinFile l.path.text content

/-- The wording of a part of an error. -/
def causeText : Cause → String
  | .text s => s
  | .json .malformed => "the text is not JSON"
  | .json .truncated => "the text ends too early"
  | .json .shape => "the value has another shape than a configuration"

/-- The wording of a refusal. -/
def refusalText : Refusal → String
  | .helpRequested => overviewText
  | .versionRequested => "vox 0.4.0\n"
  | .unknownCommand => "error: unrecognized subcommand\n"
  | .unknownArgument => "error: unexpected argument found\n"
  | .missingArgument => "error: a required argument was not provided\n"
  | .conflict => "error: an argument cannot be used with another or more than once\n"
  | .surplusValue => "error: unexpected value for a flag\n"
  | .emptyValue => "error: a value is required for an argument but none was supplied\n"

/-- Runs a command on the disk. -/
def run (invocation : Invocation) : IO ExitStatus := do
  let here : TreePath := ⟨(← IO.currentDir).toString⟩
  let (t, cwd) ← observePath {} [] here
  let before ← observeNamed (← observeConfig t cwd) cwd invocation
  let (outcome, after) := invocation.run before cwd
  commit before after
  match outcome with
  | .report report =>
      let printout := report.render (← (← IO.getStdout).isTty)
      IO.print printout.stdout
      IO.eprint printout.stderr
      return report.status
  | .error e =>
      IO.eprintln ("Error: " ++ ": ".intercalate (e.chain.map causeText))
      return .error
  | .aborted =>
      IO.eprintln "Error: the configured extension makes no path"
      return .error

/-- Carries out a command line, and returns the number of its status. -/
def start (args : List String) : IO UInt32 := do
  match Invocation.parse args with
  | .error refusal =>
      if refusal.isRequest then
        IO.print (refusalText refusal)
        return ExitStatus.success.code.toUInt32
      else
        IO.eprint (refusalText refusal)
        return ExitStatus.usage.code.toUInt32
  | .ok invocation =>
      try
        return (← run invocation).code.toUInt32
      catch e =>
        IO.eprintln s!"Error: {e}"
        return ExitStatus.error.code.toUInt32

end SpanishLua.Program

/-- The entry of the program. -/
def main (args : List String) : IO UInt32 :=
  SpanishLua.Program.start args
