namespace SpanishLua.Text

/-- The pieces of a text between separators. There is one more of them than there are separators,
and a piece may be empty. -/
def splitOn (separator : Char) (s : List Char) : List (List Char) :=
  s.foldr
    (fun c pieces =>
      if c = separator then [] :: pieces
      else
        match pieces with
        | [] => [[c]]
        | piece :: pieces => (c :: piece) :: pieces)
    [[]]

/-- The lines of a text. A text that ends in a line feed has an empty last line. -/
def lines (s : List Char) : List (List Char) :=
  splitOn '\n' s

/-- The text that has the given lines. -/
def unlines (ls : List (List Char)) : List Char :=
  ['\n'].intercalate ls

/-- The number of bytes that a text takes in UTF-8. -/
def byteLength : List Char → Nat
  | [] => 0
  | c :: s => c.utf8Size + byteLength s

/-- The text after its first `n` bytes, if these end between two characters. -/
def dropBytes? : Nat → List Char → Option (List Char)
  | 0, s => some s
  | _ + 1, [] => none
  | n + 1, c :: s => if c.utf8Size ≤ n + 1 then dropBytes? (n + 1 - c.utf8Size) s else none

/-- The number of characters before the leftmost occurrence of `word` in a text. -/
def find? (word : List Char) : List Char → Option Nat
  | [] => if word.isEmpty then some 0 else none
  | c :: s => if word.isPrefixOf (c :: s) then some 0 else (find? word s).map (· + 1)

end SpanishLua.Text
