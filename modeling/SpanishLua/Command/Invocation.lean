import SpanishLua.Files.TreePath

namespace SpanishLua.Command

open Files

/-- Where the text of a translated file goes. -/
inductive Destination where
  | beside
  | file (path : TreePath)
  | stdout
deriving DecidableEq, Repr

/-- What a command line asks for. -/
inductive Invocation where
  | overview
  | translate (input : TreePath) (destination : Destination) (verbose : Bool)
  | check (roots : List TreePath) (verbose : Bool)
  | init
deriving DecidableEq, Repr

/-- Why a command line is not carried out. -/
inductive Refusal where
  | helpRequested
  | versionRequested
  | unknownCommand
  | unknownArgument
  | missingArgument
  | conflict
  | surplusValue
  | emptyValue
deriving DecidableEq, Repr

/-- The command line asks for a text about the program itself, which is no mistake. -/
def Refusal.isRequest : Refusal → Bool
  | helpRequested | versionRequested => true
  | _ => false

/-- An option without a value. -/
inductive Switch where
  | help
  | version
  | verbose
  | stdout
deriving DecidableEq, Repr

namespace Switch

/-- The name of a switch after two dashes. -/
def long : Switch → String
  | help => "help"
  | version => "version"
  | verbose => "verbose"
  | stdout => "stdout"

/-- The letter of a switch after one dash. -/
def short? : Switch → Option Char
  | help => some 'h'
  | version => some 'V'
  | verbose => some 'v'
  | stdout => none

end Switch

/-- How many values a command takes. -/
inductive Arity where
  | atMost (count : Nat)
  | any
deriving DecidableEq, Repr

/-- The words that a command takes. -/
structure Grammar where
  switches : List Switch
  values : Arity

/-- A part of a command line that has been read. A value is held back until the next switch or value
and looked at then. -/
structure Reading where
  switches : List Switch := []
  values : List String := []
  pending : List String := []

namespace Reading

/-- Looks at the values held back. None of them may be empty. -/
def settle (r : Reading) : Except Refusal Reading :=
  if r.pending.contains "" then .error .emptyValue
  else .ok { r with values := r.values ++ r.pending, pending := [] }

/-- Reads a switch. A request ends the reading, and no switch is given twice. -/
def switch (r : Reading) (f : Switch) : Except Refusal Reading :=
  match r.settle with
  | .error e => .error e
  | .ok r =>
      match f with
      | .help => .error .helpRequested
      | .version => .error .versionRequested
      | f =>
          if r.switches.contains f then .error .conflict
          else .ok { r with switches := f :: r.switches }

/-- Reads the letters after one dash. -/
def letters (g : Grammar) (r : Reading) : List Char → Except Refusal Reading
  | [] => .ok r
  | c :: rest =>
      match g.switches.find? (·.short? == some c) with
      | none => .error .unknownArgument
      | some f =>
          match r.switch f with
          | .error e => .error e
          | .ok r => letters g r rest

/-- Reads the name after two dashes. No switch has a value. -/
def longName (g : Grammar) (r : Reading) (s : List Char) : Except Refusal Reading :=
  match g.switches.find? (·.long.toList == s.takeWhile (· != '=')) with
  | none => .error .unknownArgument
  | some f => if s.contains '=' then .error .surplusValue else r.switch f

/-- Reads a value. Where values are counted, each is a matter of its own and the one before is
looked at first. -/
def value (g : Grammar) (r : Reading) (v : String) : Except Refusal Reading :=
  match g.values with
  | .any => .ok { r with pending := r.pending ++ [v] }
  | .atMost n =>
      if n ≤ (r.values ++ r.pending).length then .error .unknownArgument
      else
        match r.settle with
        | .error e => .error e
        | .ok r => .ok { r with pending := [v] }

/-- Reads values only. -/
def allValues (g : Grammar) (r : Reading) : List String → Except Refusal Reading
  | [] => r.settle
  | v :: rest =>
      match r.value g v with
      | .error e => .error e
      | .ok r => allValues g r rest

/-- Reads one word: a switch by its name, switches by their letters, or a value. A dash alone is a
value. -/
def word (g : Grammar) (r : Reading) (w : String) : Except Refusal Reading :=
  match w.toList with
  | '-' :: '-' :: s => r.longName g s
  | '-' :: c :: s => r.letters g (c :: s)
  | _ => r.value g w

/-- Reads the words after the name of a command. After two dashes alone all words are values. -/
def words (g : Grammar) (r : Reading) : List String → Except Refusal Reading
  | [] => r.settle
  | w :: rest =>
      if w == "--" then r.allValues g rest
      else
        match r.word g w with
        | .error e => .error e
        | .ok r => words g r rest

/-- A switch was given. -/
def has (r : Reading) (f : Switch) : Bool :=
  r.switches.contains f

end Reading

/-- A command by its name. -/
inductive CommandName where
  | translate
  | check
  | init
deriving DecidableEq, Repr

namespace CommandName

/-- The word for a command. -/
def word : CommandName → String
  | translate => "translate"
  | check => "check"
  | init => "init"

/-- The command that a word stands for. -/
def ofWord? (w : String) : Option CommandName :=
  [translate, check, init].find? (·.word == w)

/-- The words that a command takes. -/
def grammar : CommandName → Grammar
  | translate => ⟨[.help, .verbose, .stdout], .atMost 2⟩
  | check => ⟨[.help, .verbose], .any⟩
  | init => ⟨[.help], .atMost 0⟩

/-- What a command with the given switches and values asks for. -/
def invocation (name : CommandName) (r : Reading) : Except Refusal Invocation :=
  match name, r.values with
  | translate, [] => .error .missingArgument
  | translate, [input] =>
      let destination := if r.has .stdout then .stdout else .beside
      .ok (.translate ⟨input⟩ destination (r.has .verbose))
  | translate, input :: output :: _ =>
      if r.has .stdout then .error .conflict
      else .ok (.translate ⟨input⟩ (.file ⟨output⟩) (r.has .verbose))
  | check, roots => .ok (.check (roots.map TreePath.mk) (r.has .verbose))
  | init, _ => .ok .init

end CommandName

namespace Invocation

/-- The word that asks for help on the command named after it. -/
def helpWord : String := "help"

/-- The word names a command, or asks for help on one. -/
def isCommandWord (w : String) : Bool :=
  w == helpWord || (CommandName.ofWord? w).isSome

/-- What a request for help asks for. It names one command at most. -/
def parseHelp : List String → Refusal
  | [] => .helpRequested
  | [w] => if isCommandWord w then .helpRequested else .unknownCommand
  | _ :: _ :: _ => .unknownCommand

/-- Reads a command line that has two dashes alone before any command. -/
def parseTrailing : List String → Except Refusal Invocation
  | [] => .ok .overview
  | w :: _ => .error (if isCommandWord w then .unknownArgument else .unknownCommand)

/-- The switches before a command. -/
def outerGrammar : Grammar :=
  ⟨[.help, .version], .atMost 0⟩

/-- Reads a command line. -/
def parse (args : List String) : Except Refusal Invocation :=
  match args with
  | [] => .ok .overview
  | w :: rest =>
      match CommandName.ofWord? w with
      | some name =>
          match Reading.words name.grammar {} rest with
          | .error e => .error e
          | .ok r => name.invocation r
      | none =>
          if w == helpWord then .error (parseHelp rest)
          else if w == "--" then parseTrailing rest
          else if w.toList.head? == some '-' && w != "-" then
            match Reading.words outerGrammar {} [w] with
            | .error e => .error e
            | .ok _ => .ok .overview
          else .error .unknownCommand

/-- The command line asks for more to be told. -/
def verbose : Invocation → Bool
  | translate _ _ verbose => verbose
  | check _ verbose => verbose
  | overview | init => false

end Invocation

end SpanishLua.Command
