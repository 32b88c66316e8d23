import SpanishLua.Code.Pass
import SpanishLua.DenyList

/-!
From a document of the dialect to Lua: the deny-list first, then line by line, where code goes
through the passes and literals stay as they are.
-/

namespace SpanishLua

open Code

/-- Why a document has no Lua text. -/
inductive DocumentError where
  | forbidden (word : ForbiddenWord)
  | line (number : Nat) (cause : ArityError)
deriving DecidableEq, Repr

namespace DocumentError

/-- The wording of a document error. -/
def message : DocumentError → String
  | forbidden word => word.message
  | line number cause => s!"error processing line {number}: {cause.message}"

/-- The line of a document error, from one. -/
def lineNumber : DocumentError → Nat
  | forbidden word => word.line
  | line number _ => number

end DocumentError

/-- The segments with their code after all passes. At the first code that fails the rest stays as
it is, and the failure is returned beside it. -/
def translateCode (lexicon : Lexicon) : List Segment → List Segment × Option ArityError
  | [] => ([], none)
  | .literal text :: rest =>
      let (rest, failure) := translateCode lexicon rest
      (.literal text :: rest, failure)
  | .code text :: rest =>
      if (Text.trim text).isEmpty then
        let (rest, failure) := translateCode lexicon rest
        (.code text :: rest, failure)
      else
        match Pass.applyAll lexicon text with
        | .error e => (.code text :: rest, some e)
        | .ok lua =>
            let (rest, failure) := translateCode lexicon rest
            (.code lua :: rest, failure)

/-- The segments of a line in Lua: services are named in their literals, then code goes through the
passes. -/
def translateSegments (lexicon : Lexicon) (segments : List Segment) :
    List Segment × Option ArityError :=
  translateCode lexicon (Service.nameAll lexicon.services segments)

/-- A rule table ready for use, with a deny-list. -/
structure Translator where
  rules : RuleTable
  denyList : DenyList
  lexicon : Lexicon

namespace Translator

/-- The translator of a table that passes its check. -/
def ofTable (rules : RuleTable) (extraWords : List String) : Except RuleError Translator :=
  match rules.fault? with
  | some e => .error e
  | none => .ok { rules, denyList := .ofExtra extraWords, lexicon := .ofTable rules }

/-- The Lua text of one line. -/
def translateLine (t : Translator) (line : List Char) : Except ArityError (List Char) :=
  if (Text.trim line).isEmpty then .ok line
  else
    match translateSegments t.lexicon (partition line) with
    | (_, some e) => .error e
    | (segments, none) => .ok (Segment.join segments)

/-- The Lua text of lines, the first of which has the number `number`. -/
def translateFrom (t : Translator) : (number : Nat) → List (List Char) →
    Except DocumentError (List (List Char))
  | _, [] => .ok []
  | number, line :: rest =>
      match t.translateLine line with
      | .error e => .error (.line number e)
      | .ok lua =>
          match t.translateFrom (number + 1) rest with
          | .error e => .error e
          | .ok luas => .ok (lua :: luas)

/-- The Lua text of a document. -/
def translate (t : Translator) (document : List Char) (label : String) :
    Except DocumentError (List Char) :=
  match t.denyList.check document label with
  | .error word => .error (.forbidden word)
  | .ok () =>
      match t.translateFrom 1 (Text.lines document) with
      | .error e => .error e
      | .ok lines => .ok (Text.unlines lines)

end Translator

end SpanishLua
