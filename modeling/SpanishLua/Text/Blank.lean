import SpanishLua.Text.Ranges

namespace SpanishLua.Text

/-- The blank characters of Unicode. -/
def blanks : Ranges :=
  [(0x9, 0xD), (0x20, 0x20), (0x85, 0x85), (0xA0, 0xA0), (0x1680, 0x1680), (0x2000, 0x200A),
   (0x2028, 0x2029), (0x202F, 0x202F), (0x205F, 0x205F), (0x3000, 0x3000)]

/-- `c` is blank: a space, a tab, a line break or one of their wider relatives. -/
def isBlank (c : Char) : Bool :=
  blanks.covers c.toNat

/-- The text from its first character that is not blank. -/
def trimStart (s : List Char) : List Char :=
  s.dropWhile isBlank

/-- The text up to its last character that fails `p`. -/
def dropTrailing (p : Char → Bool) (s : List Char) : List Char :=
  (s.reverse.dropWhile p).reverse

/-- The text up to its last character that is not blank. -/
def trimEnd (s : List Char) : List Char :=
  dropTrailing isBlank s

/-- The text without the blanks at its two ends. -/
def trim (s : List Char) : List Char :=
  trimEnd (trimStart s)

end SpanishLua.Text
