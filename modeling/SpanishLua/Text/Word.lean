import SpanishLua.Text.Alphabetic
import SpanishLua.Text.Mark

namespace SpanishLua.Text

/-- The connecting punctuation of Unicode 16, the underscore among it. -/
def connectors : Ranges :=
  [(0x5F, 0x5F), (0x203F, 0x2040), (0x2054, 0x2054), (0xFE33, 0xFE34), (0xFE4D, 0xFE4F),
   (0xFF3F, 0xFF3F)]

/-- The two invisible characters that govern how neighbours join. -/
def joinControls : Ranges :=
  [(0x200C, 0x200D)]

/-- `c` may stand in a word: it is alphabetic, a mark, a decimal digit, connecting punctuation or
a join control. A fraction or a superscript digit may not. -/
def isWord (c : Char) : Bool :=
  isAlphabetic c || isMark c || isDecimalDigit c || connectors.covers c.toNat ||
    joinControls.covers c.toNat

/-- The first character, if any, is a word character. -/
def headIsWord : List Char → Bool
  | [] => false
  | c :: _ => isWord c

/-- A word starts or ends between `before`, nearest character first, and `after`. -/
def atBoundary (before after : List Char) : Bool :=
  headIsWord before != headIsWord after

end SpanishLua.Text
