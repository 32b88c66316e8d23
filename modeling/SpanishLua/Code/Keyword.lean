import SpanishLua.Code.Scan
import SpanishLua.Rule.Vocabulary

namespace SpanishLua.Code.Keyword

/-- Claims the two words that continue a conditional, blanks between them. -/
def elseIf : Recogniser := fun before after =>
  if Text.atBoundary before after then
    ("sino".toList.isPrefixOf? after).bind fun rest =>
      let blanks := rest.takeWhile Text.isBlank
      if blanks.isEmpty then none
      else
        ("si".toList.isPrefixOf? (rest.dropWhile Text.isBlank)).bind fun tail =>
          let taken := "sino".toList ++ blanks ++ "si".toList
          if endsAt before taken tail then some { taken, text := "elseif".toList } else none
  else none

/-- Claims a function's name and an opening parenthesis. As a member it is left as it is. -/
def globalFunction (functions : Vocabulary) : Recogniser := fun before after =>
  if Text.atBoundary before after then
    firstWord? functions.words after fun word rest =>
      if endsAt before word rest then
        (opening? rest).map fun (paren, _) =>
          { taken := word ++ paren
            text :=
              (if inMemberPosition before then word else (functions.target? word).getD word) ++
                paren }
      else none
  else none

/-- Claims a keyword. As a member it is left as it is. -/
def keyword (keywords : Vocabulary) : Recogniser := fun before after =>
  if Text.atBoundary before after then
    firstWord? keywords.words after fun word rest =>
      if endsAt before word rest then
        some
          { taken := word
            text := if inMemberPosition before then word else (keywords.target? word).getD word }
      else none
  else none

/-- Puts the Lua words for those of the dialect. -/
def apply (keywords functions : Vocabulary) (code : List Char) : List Char :=
  replaceAll (keyword keywords) (replaceAll (globalFunction functions) (replaceAll elseIf code))

end SpanishLua.Code.Keyword
