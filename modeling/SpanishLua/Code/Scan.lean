import SpanishLua.Text.Blank
import SpanishLua.Text.Word

/-!
Scanning code. A recogniser looks at a place in a text and may claim the characters that start
there; scanning goes from left to right, and what one claim takes no later claim sees again.
-/

namespace SpanishLua.Code

/-- Characters claimed at a place, and the text to put for them. -/
structure Hit where
  taken : List Char
  text : List Char

/-- The claim, if any, on a text whose characters before the place are `before`, nearest first, and
whose characters from the place on are `after`. -/
abbrev Recogniser := (before after : List Char) → Option Hit

/-- Replaces every claim of `find` in `after`, from left to right. -/
def replaceFrom (find : Recogniser) (before after : List Char) : List Char :=
  match after with
  | [] => []
  | c :: rest =>
      match find before (c :: rest) with
      | none => c :: replaceFrom find (c :: before) rest
      | some hit =>
          let skipped := hit.taken.length - 1
          hit.text ++
            replaceFrom find ((c :: rest.take skipped).reverse ++ before) (rest.drop skipped)
termination_by after.length
decreasing_by all_goals simp; try omega

/-- Replaces every claim of `find` in a text. -/
def replaceAll (find : Recogniser) (s : List Char) : List Char :=
  replaceFrom find [] s

/-- Every claim of `find` in `after`, each with the text that follows it. -/
def claimsFrom (find : Recogniser) (before after : List Char) : List (Hit × List Char) :=
  match after with
  | [] => []
  | c :: rest =>
      match find before (c :: rest) with
      | none => claimsFrom find (c :: before) rest
      | some hit =>
          let skipped := hit.taken.length - 1
          (hit, rest.drop skipped) ::
            claimsFrom find ((c :: rest.take skipped).reverse ++ before) (rest.drop skipped)
termination_by after.length
decreasing_by all_goals simp; try omega

/-- Every claim of `find` in a text, each with the text that follows it. -/
def claims (find : Recogniser) (s : List Char) : List (Hit × List Char) :=
  claimsFrom find [] s

/-- The place is that of a member: right after a colon or a dot, but not after two dots, which
concatenate. -/
def inMemberPosition : (before : List Char) → Bool
  | '.' :: '.' :: _ => false
  | '.' :: _ | ':' :: _ => true
  | _ => false

/-- The first of `words` that `after` starts with and for which `accept`, given the word and what
follows it, has an answer. -/
def firstWord? {α : Type} (words : List (List Char)) (after : List Char)
    (accept : (word rest : List Char) → Option α) : Option α :=
  words.findSome? fun word => (word.isPrefixOf? after).bind (accept word)

/-- A word ends between `word`, which follows `before`, and `rest`. -/
def endsAt (before word rest : List Char) : Bool :=
  Text.atBoundary (word.reverse ++ before) rest

/-- Blanks and an opening parenthesis at the start of a text, and what follows them. -/
def opening? (s : List Char) : Option (List Char × List Char) :=
  match s.dropWhile Text.isBlank with
  | '(' :: rest => some (s.takeWhile Text.isBlank ++ ['('], rest)
  | _ => none

/-- The word characters at the start of a text. -/
def wordRun (s : List Char) : List Char :=
  s.takeWhile Text.isWord

/-- What a word run has before an ending, which must not be all of it. -/
def stemOf? (ending run : List Char) : Option (List Char) :=
  match ending.reverse.isPrefixOf? run.reverse with
  | some (c :: stem) => some (c :: stem).reverse
  | _ => none

end SpanishLua.Code
