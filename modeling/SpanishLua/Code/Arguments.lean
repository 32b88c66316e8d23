import SpanishLua.Code.Scan
import SpanishLua.Rule.Vocabulary

namespace SpanishLua.Code

/-- `c` opens a bracket of some kind. -/
def isOpener (c : Char) : Bool :=
  c == '(' || c == '[' || c == '\x7b'

/-- `c` closes a bracket of some kind. -/
def isCloser (c : Char) : Bool :=
  c == ')' || c == ']' || c == '\x7d'

/-- The text up to the bracket that closes the call, at `depth` brackets inside it, and the number
of commas at depth zero. Brackets of all kinds count alike. -/
def scanArguments : (depth : Nat) → List Char → List Char × Nat
  | _, [] => ([], 0)
  | depth, c :: rest =>
      if isOpener c then
        let (scanned, commas) := scanArguments (depth + 1) rest
        (c :: scanned, commas)
      else if isCloser c then
        match depth with
        | 0 => ([], 0)
        | depth + 1 =>
            let (scanned, commas) := scanArguments depth rest
            (c :: scanned, commas)
      else
        let (scanned, commas) := scanArguments depth rest
        (c :: scanned, if c == ',' && depth == 0 then commas + 1 else commas)

/-- The number of arguments that follow an opening parenthesis, and their text. Blanks alone are no
argument. -/
def countArguments (s : List Char) : Nat × List Char :=
  let (scanned, commas) := scanArguments 0 s
  (if commas = 0 ∧ (Text.trim scanned).isEmpty then 0 else commas + 1, scanned)

/-- A constructor called with more arguments than it takes. -/
structure ArityError where
  call : String
  arguments : String
  max : Nat
  found : Nat
deriving DecidableEq, Repr

/-- The wording of an arity error. -/
def ArityError.message (e : ArityError) : String :=
  s!"{e.call} accepts at most {e.max} arguments, found {e.found}: {e.arguments}"

/-- The ending that makes a type's name its constructor. -/
def constructorEnding : List Char :=
  "_nuevo".toList

/-- Claims a call of a bounded constructor, under its name in the dialect or in Lua. -/
def Bound.call (b : Bound) : Recogniser := fun before after =>
  if Text.atBoundary before after then
    firstWord? [b.source ++ constructorEnding, b.target ++ ".new".toList] after fun word rest =>
      (opening? rest).map fun (paren, _) =>
        { taken := word ++ paren, text := word ++ paren }
  else none

/-- The name in the text of a call up to its parenthesis. -/
def calleeOf (call : List Char) : List Char :=
  Text.trimEnd (Text.dropTrailing (· == '(') call)

/-- The first call in the text that breaks the bound. -/
def Bound.broken? (b : Bound) (code : List Char) : Option ArityError :=
  (claims (Bound.call b) code).findSome? fun (hit, rest) =>
    let (found, arguments) := countArguments rest
    if b.max < found then
      some
        { call := String.ofList (calleeOf hit.taken)
          arguments := String.ofList (Text.trim arguments)
          max := b.max
          found }
    else none

end SpanishLua.Code
