import SpanishLua.Text.Blank
import SpanishLua.Text.Fold
import SpanishLua.Text.Lines

namespace SpanishLua

/-- A list of denied words. -/
structure DenyList where
  words : List String

/-- A denied word in a document: the entry that was met, its line, the byte column of its first
character, both from one, and the label of the document. -/
structure ForbiddenWord where
  token : String
  line : Nat
  column : Nat
  label : String
deriving DecidableEq, Repr

/-- The wording of a denial. -/
def ForbiddenWord.message (e : ForbiddenWord) : String :=
  s!"forbidden word '{e.token}' found on line {e.line} of {e.label}"

namespace DenyList

/-- The words that are always denied. -/
def defaultWords : List String :=
  ["loadstring", "getfenv", "setfenv", "rawget", "rawset", "rawequal", "newproxy", "debug",
   "collectgarbage", "dofile", "require", "package", "module", "coroutine", "PostAsync",
   "RequestAsync"]

/-- Two words are the same up to the case of ASCII letters. -/
def sameEntry (a b : String) : Bool :=
  a.toList.map Char.toLower == b.toList.map Char.toLower

/-- Adds a word without the blanks around it, unless it is empty or on the list. -/
def add (words : List String) (word : String) : List String :=
  let entry := String.ofList (Text.trim word.toList)
  if entry == "" || words.any (sameEntry · entry) then words else words ++ [entry]

/-- The default words, then the extra ones that are new. -/
def ofExtra (extra : List String) : DenyList where
  words := extra.foldl add defaultWords

/-- The place on the list of the first entry that occurs in a line. -/
def first? (d : DenyList) (line : List Char) : Option (Fin d.words.length) :=
  d.words.findFinIdx? fun word => Text.holdsFolded word.toList line

/-- The first denial among lines, the first of which has the number `line`. A line that holds an
entry is searched once more, for the place of that entry alone. -/
def findFrom? (d : DenyList) (label : String) : (line : Nat) → List (List Char) →
    Option ForbiddenWord
  | _, [] => none
  | line, text :: rest =>
      match d.first? text with
      | none => d.findFrom? label (line + 1) rest
      | some i =>
          match Text.findFolded? d.words[i].toList text with
          | none => d.findFrom? label (line + 1) rest
          | some offset =>
              let column := Text.byteLength (text.take offset) + 1
              some { token := d.words[i], line, column, label }

/-- Refuses a document that holds a denied word. -/
def check (d : DenyList) (document : List Char) (label : String) : Except ForbiddenWord Unit :=
  match d.findFrom? label 1 (Text.lines document) with
  | some e => .error e
  | none => .ok ()

end DenyList

end SpanishLua
