import SpanishLua.Code.Scan
import SpanishLua.Rule.Vocabulary

namespace SpanishLua.Code.Enumeration

/-- `c` may start the name of an item. -/
def isItemStart (c : Char) : Bool :=
  Text.isLetter c || c == '_'

/-- `c` may stand in the name of an item. -/
def isItemChar (c : Char) : Bool :=
  Text.isLetter c || Text.isNumeric c || c == '_'

/-- The longest item name at the start of a text that ends where a word starts or ends. -/
def itemName? (s : List Char) : Option (List Char) :=
  match s with
  | [] => none
  | c :: _ =>
      if isItemStart c then
        let run := s.takeWhile isItemChar
        (List.range run.length).reverse.findSome? fun shorter =>
          let name := s.take (shorter + 1)
          if endsAt [] name (s.drop (shorter + 1)) then some name else none
      else none

/-- Claims an enumeration's name, a dot and an item's name. -/
def item (families members : Vocabulary) : Recogniser := fun before after =>
  if Text.atBoundary before after then
    firstWord? families.words after fun family rest =>
      match rest with
      | '.' :: rest =>
          (itemName? rest).map fun member =>
            let taken := family ++ '.' :: member
            { taken
              text :=
                match inMemberPosition before, families.target? family, members.target? taken with
                | false, some family, some member => family ++ '.' :: member
                | _, _, _ => taken }
      | _ => none
  else none

/-- Claims a word that names an item alone. As a member it is left as it is. -/
def constant (constants : Vocabulary) : Recogniser := fun before after =>
  if Text.atBoundary before after then
    firstWord? constants.words after fun word rest =>
      if endsAt before word rest then
        some
          { taken := word
            text := if inMemberPosition before then word else (constants.target? word).getD word }
      else none
  else none

/-- The ending that makes a colour its bright shade. -/
def brightEnding : List Char :=
  "_brillante".toList

/-- Claims a word with the ending of a bright shade. -/
def bright : Recogniser := fun before after =>
  if Text.atBoundary before after then
    let run := wordRun after
    (stemOf? brightEnding run).map fun colour =>
      { taken := run, text := "BrickColor.new(\"Bright ".toList ++ colour ++ "\")".toList }
  else none

/-- Puts the Lua items for those of the dialect. -/
def apply (families members constants : Vocabulary) (code : List Char) : List Char :=
  replaceAll bright
    (replaceAll (constant constants) (replaceAll (item families members) code))

end SpanishLua.Code.Enumeration
