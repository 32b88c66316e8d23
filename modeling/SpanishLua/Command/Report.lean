import SpanishLua.Command.Failure
import SpanishLua.Text.Width

namespace SpanishLua.Command

open Files

/-- What a command tells when it has run. -/
inductive Report where
  | overview
  | translated (input output : TreePath)
  | printed (text : List Char)
  | created (path : TreePath)
  | failed (failure : Failure)
  | checked (files : Nat) (failures : List Failure)
deriving DecidableEq

/-- The status of a command that tells this. -/
def Report.status : Report → ExitStatus
  | failed failure => failure.kind.status
  | checked _ failures => .worst (failures.map (·.kind.status))
  | _ => .success

/-- The text on the two channels of a command. -/
structure Printout where
  stdout : String := ""
  stderr : String := ""

/-- A colour of a terminal. -/
inductive Colour where
  | red
  | boldRed
  | green
  | blue

/-- The code that starts a colour. -/
def Colour.code : Colour → List Char
  | red => "\x1b[31m".toList
  | boldRed => "\x1b[1;31m".toList
  | green => "\x1b[32m".toList
  | blue => "\x1b[34m".toList

/-- The code that ends a colour. -/
def colourEnd : List Char :=
  "\x1b[0m".toList

/-- Starts a colour again wherever the text ends it. -/
def reopen (start : List Char) : List Char → List Char
  | '\x1b' :: '[' :: '0' :: 'm' :: s => colourEnd ++ start ++ reopen start s
  | c :: s => c :: reopen start s
  | [] => []

/-- A text in a colour, where colours are on. -/
def Colour.paint (colour : Colour) (coloured : Bool) (s : String) : String :=
  if coloured then
    String.ofList (colour.code ++ reopen colour.code s.toList ++ colourEnd)
  else s

/-- So many spaces. -/
def spaces (n : Nat) : String :=
  String.ofList (List.replicate n ' ')

/-- A text at the right end of so many columns. -/
def alignRight (width : Nat) (s : String) : String :=
  spaces (width - s.length) ++ s

namespace Failure

/-- The columns that the line numbers of failures take. -/
def numberWidth (failures : List Failure) : Nat :=
  (toString (failures.foldl (fun n f => max n f.line) 0)).length

/-- The lines of a report that show a place. -/
def renderPlace (coloured : Bool) (width : Nat) (path : String) (p : Place) : String :=
  let arrow := Colour.blue.paint coloured "-->"
  let bar := Colour.blue.paint coloured "|"
  let number := Colour.blue.paint coloured (alignRight width (toString p.line))
  let caret := Colour.red.paint coloured "^"
  let padding := spaces (Text.displayWidth (p.text.take (p.column - 1)))
  s!"  {arrow} {path}:{p.line}:{p.column}\n" ++
    s!"{spaces width} {bar}\n" ++
    s!"{number} {bar} {String.ofList p.text}\n" ++
    s!"{spaces width} {bar} {padding}{caret}\n"

/-- The report of one failure, where line numbers take `width` columns. -/
def render (coloured : Bool) (width : Nat) (f : Failure) : String :=
  let arrow := Colour.blue.paint coloured "-->"
  let head := Colour.boldRed.paint coloured s!"error[{f.kind.name}]"
  let place := match f.place with
    | none => s!"  {arrow} {f.path}\n"
    | some p => renderPlace coloured width f.path p
  s!"{head}: {f.message}\n{place}\n"

/-- The report of all failures. -/
def renderAll (coloured : Bool) (failures : List Failure) : String :=
  String.join (failures.map (render coloured (numberWidth failures)))

end Failure

/-- The mark of a success. -/
def successMark : String := "✓"

/-- The mark of a failure. -/
def failureMark : String := "✘"

/-- The line that tells a success. -/
def successLine (coloured : Bool) (s : String) : String :=
  s!"{Colour.green.paint coloured successMark} {Colour.green.paint coloured s}\n"

/-- What the program is for and which commands it has. -/
def overviewText : String :=
  "A fast CLI tool that translates Spanish-keyword Lua (Vox) into Roblox Lua\n\n" ++
  "Usage: vox [COMMAND]\n\n" ++
  "Commands:\n" ++
  "  translate  Translate a Vox file to Roblox Lua\n" ++
  "  check      Translate files in memory and report failures without writing output\n" ++
  "  init       Initialize a new .voxrc.json configuration file\n" ++
  "  help       Print this message or the help of the given subcommand(s)\n\n" ++
  "Options:\n" ++
  "  -h, --help     Print help\n" ++
  "  -V, --version  Print version\n"

namespace Report

/-- A number of files in words. -/
def countFiles (n : Nat) : String :=
  if n = 1 then "1 file" else s!"{n} files"

/-- The text of a report. A single failure goes to the channel for errors, and all else to the
other one. -/
def render (coloured : Bool) : Report → Printout
  | overview => { stdout := overviewText }
  | translated input output =>
      { stdout := successLine coloured s!"Translated {input.text} -> {output.text}" }
  | printed text => { stdout := String.ofList text }
  | created path => { stdout := successLine coloured s!"Created {path.text}" }
  | failed failure => { stderr := Failure.renderAll coloured [failure] }
  | checked files [] =>
      { stdout := successLine coloured s!"Checked {countFiles files} - no errors found" }
  | checked files failures =>
      { stdout := Failure.renderAll coloured failures ++
          s!"{Colour.red.paint coloured failureMark} {failures.length} failed " ++
          s!"({countFiles files} checked)\n" }

end Report

end SpanishLua.Command
