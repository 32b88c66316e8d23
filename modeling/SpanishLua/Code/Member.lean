import SpanishLua.Code.Scan
import SpanishLua.Rule.Vocabulary

namespace SpanishLua.Code.Member

/-- Claims a dot and a property's name. A dot right after another one concatenates, and what follows
it is left as it is. -/
def property (properties : Vocabulary) : Recogniser := fun before after =>
  match after with
  | '.' :: rest =>
      firstWord? properties.words rest fun word tail =>
        if endsAt before word tail then
          some
            { taken := '.' :: word
              text := match before.head?, properties.target? word with
                | some '.', _ | _, none => '.' :: word
                | _, some target => '.' :: target }
        else none
  | _ => none

/-- The name of the library and the dot after it. -/
def mathLibrary : List Char :=
  "math.".toList

/-- Claims the name of the `math` library, a dot and a function's name. -/
def mathFunction (functions : Vocabulary) : Recogniser := fun before after =>
  if Text.atBoundary before after then
    (mathLibrary.isPrefixOf? after).bind fun rest =>
      firstWord? functions.words rest fun word tail =>
        if endsAt before word tail then
          some
            { taken := mathLibrary ++ word
              text := mathLibrary ++ (functions.target? word).getD word }
        else none
  else none

/-- Puts the Lua members for those of the dialect. -/
def apply (properties functions : Vocabulary) (code : List Char) : List Char :=
  replaceAll (mathFunction functions) (replaceAll (property properties) code)

end SpanishLua.Code.Member
