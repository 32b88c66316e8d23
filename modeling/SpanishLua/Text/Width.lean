import SpanishLua.Text.Width.Emoji
import SpanishLua.Text.Width.Wide
import SpanishLua.Text.Width.Zero

/-!
How many columns a text takes on a terminal. Most characters bring a width of their own; a few
merge with what stands to their right (emoji sequences, flags, ligatures of some scripts), so the
text is read from its end and each step remembers what it has just passed.
-/

namespace SpanishLua.Text

/-- What stands right of a place, as far as a character left of it may merge with it. -/
inductive Shape where
  | plain
  | lineFeed
  | skinTone
  | flagLetter
  | flagLetters
  | emoji
  /-- A joiner, then an emoji. -/
  | joinedEmoji
  /-- A keycap, a joiner, then an emoji. -/
  | joinedKeycap
  /-- The last letter of a flag, a joiner, then an emoji. -/
  | joinedFlag
  /-- Several letters of flags, a joiner, then an emoji; `even` tells whether they pair up. -/
  | joinedFlags (even : Bool)
  /-- The end of a tag sequence, a joiner, then an emoji, with the tags passed so far. -/
  | tags (letters digits : Nat)
  | alef
  | lamed (joined : Bool)
  | ya (joined : Bool)
  | vowelYa
  | tifinagh (joined : Bool)
  | tifinaghJoiner
  | lisuTone
  | orkhon (joined : Bool)
  | coengLetter
  | kiratE
  | kiratAi
deriving DecidableEq

/-- What stands right of a place: a shape, and the selectors passed after it. Each of them asks the
next character to the left to take a form. -/
structure Following where
  shape : Shape := .plain
  emojiForm : Bool := false
  textForm : Bool := false
  fullwidth : Bool := false
deriving DecidableEq

namespace Shape

/-- The shape waits for the other half of a ligature, and invisible marks do not disturb it. -/
def isOpenLigature : Shape → Bool
  | lamed _ | ya _ | vowelYa | tifinagh _ | tifinaghJoiner | lisuTone | orkhon _
  | coengLetter => true
  | _ => false

/-- A selector does not disturb the shape. -/
def isLigature (s : Shape) : Bool :=
  s == alef || s.isOpenLigature

/-- A joiner was passed before an emoji, so that the next emoji merges with it. -/
def isJoinedEmoji (s : Shape) : Bool :=
  s == joinedEmoji || s == joinedKeycap

/-- The shape after a joiner. -/
def join : Shape → Shape
  | lamed _ => lamed true
  | ya _ => ya true
  | tifinagh _ => tifinagh true
  | orkhon _ => orkhon true
  | s => s

end Shape

/-- `c` lies between the two code points. -/
def inSpan (c : Char) (lo hi : Nat) : Bool :=
  lo ≤ c.toNat && c.toNat ≤ hi

/-- Arabic letters of the group of alef. -/
def alefs : Ranges :=
  [(0x622, 0x623), (0x625, 0x625), (0x627, 0x627), (0x671, 0x673), (0x675, 0x675), (0x773, 0x774),
   (0x870, 0x882)]

/-- Arabic letters of the group of lam. -/
def lams : Ranges :=
  [(0x644, 0x644), (0x6B5, 0x6B8), (0x76A, 0x76A), (0x8A6, 0x8A6), (0x8C7, 0x8C7)]

/-- Khmer letters that may be written below another one. -/
def coengLetters : Ranges :=
  [(0x1780, 0x1782), (0x1784, 0x1787), (0x1789, 0x178C), (0x178E, 0x1793), (0x1795, 0x1798),
   (0x179B, 0x179D), (0x17A0, 0x17A0), (0x17A2, 0x17A2), (0x17A7, 0x17A7), (0x17AB, 0x17AC),
   (0x17AF, 0x17AF)]

/-- Invisible marks that may stand inside a ligature. -/
def ligatureMarks : Ranges :=
  [(0x34F, 0x34F), (0x17B4, 0x17B5), (0x180B, 0x180D), (0x180F, 0x180F), (0x200D, 0x200D),
   (0xFE00, 0xFE0F), (0xE0100, 0xE01EF)]

/-- Tifinagh consonants. -/
def isTifinaghConsonant (c : Char) : Bool :=
  inSpan c 0x2D31 0x2D65 || c.toNat == 0x2D6F

/-- Quotation marks that a selector makes as wide as an ideograph. -/
def isQuotation (c : Char) : Bool :=
  inSpan c 0x2018 0x2019 || inSpan c 0x201C 0x201D

/-- The width of a character by itself, and what it offers to its left neighbour. -/
def ownWidth (c : Char) : Int × Following :=
  let n := c.toNat
  if n == 0x0A then (1, { shape := .lineFeed })
  else if n == 0x5DC then (1, { shape := .lamed false })
  else if alefs.covers n then (1, { shape := .alef })
  else if coengLetters.covers n then (1, { shape := .coengLetter })
  else if n == 0x17D8 then (3, {})
  else if n == 0x1A10 then (1, { shape := .ya false })
  else if isTifinaghConsonant c then (1, { shape := .tifinagh false })
  else if n == 0xA4FC || n == 0xA4FD then (1, { shape := .lisuTone })
  else if n == 0x10C03 then (1, { shape := .orkhon false })
  else if n == 0x16D67 then (1, { shape := .kiratE })
  else if n == 0x16D68 then (1, { shape := .kiratAi })
  else if isRegionalIndicator c then (1, { shape := .flagLetter })
  else if isEmojiModifier c then (2, { shape := .skinTone })
  else if isEmojiPresentation c then (2, { shape := .emoji })
  else if isZeroWidth c then (0, {})
  else if isWide c then (2, {})
  else (1, {})

/-- The width that `c` adds when it merges with the shape to its right, if it does. -/
def mergedWidth? (c : Char) (right : Shape) : Option (Int × Shape) :=
  let n := c.toNat
  match right with
  | .alef =>
      if lams.covers n then some (0, .plain)
      else if isJoiningTransparent c then some (0, .alef)
      else none
  | .lamed true => if n == 0x5D0 then some (0, .plain) else none
  | .coengLetter => if n == 0x17D2 then some (-1, .plain) else none
  | .ya true => if n == 0x1A17 then some (0, .vowelYa) else none
  | .vowelYa => if n == 0x1A15 then some (0, .plain) else none
  | .tifinagh joined =>
      if n == 0x2D7F then some (1, .tifinaghJoiner)
      else if joined && isTifinaghConsonant c then some (0, .plain)
      else none
  | .tifinaghJoiner => if isTifinaghConsonant c then some (-1, .plain) else none
  | .lisuTone => if inSpan c 0xA4F8 0xA4FB then some (0, .plain) else none
  | .orkhon true => if n == 0x10C32 then some (0, .plain) else none
  | .skinTone =>
      if isEmojiModifierBase c then some (0, .emoji)
      else if n == 0x200D then some (0, .joinedEmoji)
      else none
  | .flagLetter => if isRegionalIndicator c then some (1, .flagLetters) else none
  | .flagLetters =>
      if isRegionalIndicator c then some (1, .flagLetters)
      else if n == 0x200D then some (0, .joinedEmoji)
      else none
  | .emoji => if n == 0x200D then some (0, .joinedEmoji) else none
  | .joinedEmoji =>
      if n == 0x20E3 then some (0, .joinedKeycap)
      else if isRegionalIndicator c then some (1, .joinedFlag)
      else if isEmojiModifier c then some (0, .skinTone)
      else if n == 0xE007F then some (0, .tags 0 0)
      else if isEmojiPresentation c then some (0, .emoji)
      else none
  | .joinedFlag => if isRegionalIndicator c then some (-1, .joinedFlags true) else none
  | .joinedFlags even =>
      if isRegionalIndicator c then
        if even then some (3, .joinedFlags false) else some (-1, .joinedFlags true)
      else if n == 0x200D then some (0, .joinedEmoji)
      else none
  | .tags letters digits =>
      if inSpan c 0xE0061 0xE007A && digits == 0 && letters < 6 then
        some (0, .tags (letters + 1) 0)
      else if inSpan c 0xE0030 0xE0039 && digits < 3 && (digits != 0 || letters < 5) then
        some (0, .tags letters (digits + 1))
      else if n == 0x1F3F4 && (digits == 3 || digits == 0 && 3 ≤ letters) then some (0, .emoji)
      else none
  | .kiratE =>
      if n == 0x16D63 || n == 0x16D69 then some (0, .plain)
      else if n == 0x16D67 then some (0, .kiratAi)
      else if n == 0x16D68 then some (1, .kiratE)
      else none
  | .kiratAi => if n == 0x16D63 then some (0, .plain) else none
  | _ => none

/-- The width that a character beyond Latin-1 adds before `right`, no selector pending. -/
def widthBefore (c : Char) (right : Shape) : Int × Following :=
  if right.isOpenLigature && c.toNat == 0x200D then (0, { shape := right.join })
  else if right.isOpenLigature && ligatureMarks.covers c.toNat then (0, { shape := right })
  else
    match mergedWidth? c right with
    | some (width, shape) => (width, { shape })
    | none => ownWidth c

/-- What a selector leaves of what stands right of it: a ligature stays, with the selectors passed
before, and all else is forgotten. -/
def Following.kept (right : Following) : Following :=
  if right.shape.isLigature then right else {}

/-- The width that a character adds before `right`, the selector of the emoji form apart. -/
def widthUnselected (c : Char) (right : Following) : Int × Following :=
  let n := c.toNat
  if n ≤ 0xA0 then
    if n == 0x0D && right.shape == .lineFeed then (0, {})
    else if n == 0x0A then (1, { shape := .lineFeed })
    else (1, {})
  else if n == 0xFE0F then
    if right.shape.isJoinedEmoji then (0, { right with emojiForm := true })
    else (0, { right.kept with emojiForm := true })
  else if n == 0xFE0E then (0, { right.kept with textForm := true })
  else if n == 0xFE01 then (0, { right.kept with fullwidth := true })
  else if right.textForm && narrowsAsText c then (1, {})
  else if right.fullwidth && isQuotation c then (2, {})
  else widthBefore c right.shape

/-- The width that a character adds before `right`, and what it offers to its left neighbour. -/
def widthStep (c : Char) (right : Following) : Int × Following :=
  if right.emojiForm then
    if hasEmojiForm c then
      (if right.shape.isJoinedEmoji then 0 else 2, { shape := .emoji })
    else widthUnselected c { right.kept with emojiForm := false }
  else widthUnselected c right

/-- The columns that a text takes. -/
def displayWidth (s : List Char) : Nat :=
  (s.foldr
    (fun c (sum, right) => let (width, left) := widthStep c right; (sum + width, left))
    ((0 : Int), ({} : Following))).1.toNat

end SpanishLua.Text
