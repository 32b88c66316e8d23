import SpanishLua.Command.ExitStatus
import SpanishLua.Files.FileTree
import SpanishLua.Translator

namespace SpanishLua.Command

open Files

/-- The kind of a failure. -/
inductive FailureKind where
  | forbiddenWord
  | semantic
  | usage
  | io
deriving DecidableEq, Repr

namespace FailureKind

/-- The name of a kind in reports. -/
def name : FailureKind → String
  | forbiddenWord => "forbidden-word"
  | semantic => "semantic"
  | usage => "usage"
  | io => "io"

/-- The status of a command that fails so. -/
def status : FailureKind → ExitStatus
  | forbiddenWord => .forbiddenWord
  | semantic => .semantic
  | usage => .usage
  | io => .error

end FailureKind

/-- A place in a document: the line and the column of a character, both from one, and the text of
the line. -/
structure Place where
  line : Nat
  column : Nat
  text : List Char
deriving DecidableEq, Repr

/-- A file that a command could not deal with. -/
structure Failure where
  path : String
  kind : FailureKind
  message : String
  place : Option Place := none
deriving DecidableEq, Repr

/-- A line without the carriage return at its end. -/
def withoutReturn (line : List Char) : List Char :=
  if line.getLast? == some '\r' then line.dropLast else line

/-- The column to blame in a line: where a denied word starts, or the first occurrence of the name
of a call. It is the first one when the line has no such place. -/
def columnOf (line : List Char) : DocumentError → Nat
  | .forbidden word =>
      match Text.dropBytes? (word.column - 1) line with
      | none => 1
      | some rest => line.length - rest.length + 1
  | .line _ cause => (Text.find? cause.call.toList line).getD 0 + 1

/-- The place in a document that an error points at. -/
def placeOf (document : List Char) (e : DocumentError) : Option Place :=
  (Text.lines document)[e.lineNumber - 1]?.map fun line =>
    let text := withoutReturn line
    { line := e.lineNumber, column := columnOf text e, text }

namespace Failure

/-- A failure of the command line. -/
def usage (path message : String) : Failure :=
  { path, kind := .usage, message }

/-- A file that cannot be read. -/
def unreadable (path : String) (fault : FileFault) : Failure :=
  { path, kind := .io, message := fault.message }

/-- A document that has no Lua text. -/
def ofDocument (path : String) (document : List Char) (e : DocumentError) : Failure where
  path := path
  kind := match e with
    | .forbidden _ => .forbiddenWord
    | .line _ _ => .semantic
  message := e.message
  place := placeOf document e

/-- The line of a failure. A failure without a place counts as before the first line. -/
def line (f : Failure) : Nat :=
  (f.place.map Place.line).getD 0

/-- The order of reports: by path, then by line. -/
def le (a b : Failure) : Bool :=
  a.path < b.path || (a.path == b.path && a.line ≤ b.line)

end Failure

end SpanishLua.Command
