import SpanishLua.Code.Scan
import SpanishLua.Rule.Vocabulary
import SpanishLua.Segment

/-!
Looking up a service: the accessor becomes a call on the game, and the literal between the
parentheses of such a call names the service.
-/

namespace SpanishLua.Code.Service

/-- The accessor of the dialect. -/
def accessor : List Char :=
  "obtener_servicio".toList

/-- Claims the accessor as a whole word. As a member it is the method alone. -/
def lookup : Recogniser := fun before after =>
  if Text.atBoundary before after then
    firstWord? [accessor] after fun word rest =>
      if endsAt before word rest then
        some
          { taken := word
            text := (if inMemberPosition before then "GetService" else "game:GetService").toList }
      else none
  else none

/-- Puts the call on the game for each accessor. -/
def apply (code : List Char) : List Char :=
  replaceAll lookup code

/-- The code ends in the accessor and an opening parenthesis, blanks aside. -/
def opensLookup (code : List Char) : Bool :=
  match code.reverse.dropWhile Text.isBlank with
  | '(' :: rest =>
      match accessor.reverse.isPrefixOf? (rest.dropWhile Text.isBlank) with
      | some before => Text.atBoundary before accessor
      | none => false
  | _ => false

/-- The code starts with a closing parenthesis, blanks aside. -/
def closesLookup (code : List Char) : Bool :=
  match code.dropWhile Text.isBlank with
  | ')' :: _ => true
  | _ => false

/-- The literal with the name of the service that its body stands for, if it stands for one. -/
def named (services : Vocabulary) (s : Segment) : Segment :=
  match s.body? with
  | none => s
  | some (quote, body) =>
      match services.target? body with
      | none => s
      | some name => .literal (quote :: name ++ [quote])

/-- `s` stands between the parentheses of a lookup. -/
def isLookupArgument (previous next : Segment) : Bool :=
  match previous, next with
  | .code before, .code after => opensLookup before && closesLookup after
  | _, _ => false

/-- Names the services among segments that follow `previous`. -/
def nameAfter (services : Vocabulary) (previous : Segment) : List Segment → List Segment
  | current :: next :: rest =>
      let current := if isLookupArgument previous next then named services current else current
      current :: nameAfter services current (next :: rest)
  | segments => segments

/-- Names the services in the literals of a line. -/
def nameAll (services : Vocabulary) : List Segment → List Segment
  | [] => []
  | first :: rest => first :: nameAfter services first rest

end SpanishLua.Code.Service
