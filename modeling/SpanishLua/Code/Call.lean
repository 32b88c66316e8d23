import SpanishLua.Code.Arguments

namespace SpanishLua.Code.Call

/-- Claims a colon, a method's name and an opening parenthesis, with the blanks between them. -/
def method (methods : Vocabulary) : Recogniser := fun _ after =>
  match after with
  | ':' :: rest =>
      let blanks := rest.takeWhile Text.isBlank
      firstWord? methods.words (rest.dropWhile Text.isBlank) fun word tail =>
        (opening? tail).map fun (paren, _) =>
          let taken := ':' :: blanks ++ word ++ paren
          { taken
            text := match methods.target? word with
              | some target => ':' :: target ++ ['(']
              | none => taken }
  | _ => none

/-- Puts the Lua methods for those of the dialect. -/
def applyMethods (methods : Vocabulary) (code : List Char) : List Char :=
  replaceAll (method methods) code

/-- Claims a word with the constructor ending and an opening parenthesis. A type without a rule
keeps its name. -/
def constructor (types : Vocabulary) : Recogniser := fun before after =>
  if Text.atBoundary before after then
    let run := wordRun after
    (stemOf? constructorEnding run).bind fun name =>
      (opening? (after.drop run.length)).map fun (paren, _) =>
        { taken := run ++ paren
          text := (types.target? name).getD name ++ ".new(".toList }
  else none

/-- Claims the constructor of instances and an opening parenthesis. -/
def instanceFactory : Recogniser := fun before after =>
  if Text.atBoundary before after then
    firstWord? ["instancia_nueva".toList] after fun word rest =>
      (opening? rest).map fun (paren, _) =>
        { taken := word ++ paren, text := "Instance.new(".toList }
  else none

/-- Puts the Lua constructors for those of the dialect, provided that no bound is broken. -/
def applyConstructors (types : Vocabulary) (bounds : List Bound) (code : List Char) :
    Except ArityError (List Char) :=
  match bounds.findSome? (Bound.broken? · code) with
  | some e => .error e
  | none => .ok (replaceAll instanceFactory (replaceAll (constructor types) code))

end SpanishLua.Code.Call
