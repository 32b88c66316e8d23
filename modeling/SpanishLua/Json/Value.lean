import SpanishLua.Text.Lines

/-!
JSON values and their text on several lines, two blanks for each level.
-/

namespace SpanishLua.Json

/-- A JSON value. Natural numbers that fit a machine word are told apart from all other numbers,
which are kept as they are spelt; an object keeps its members in order, repeated keys included. -/
inductive Value where
  | null
  | bool (b : Bool)
  | natural (n : UInt64)
  | number (spelling : List Char)
  | string (s : List Char)
  | array (items : List Value)
  | object (members : List (List Char × Value))
deriving Inhabited

/-- The digit of a number below sixteen. -/
def hexDigit (n : Nat) : Char :=
  if n < 10 then Char.ofNat (0x30 + n) else Char.ofNat (0x61 + (n - 10))

/-- One character between quotes. Quotes, backslashes and control characters are escaped. -/
def quotedChar (c : Char) : List Char :=
  if c = '"' then ['\\', '"']
  else if c = '\\' then ['\\', '\\']
  else if c = '\x08' then ['\\', 'b']
  else if c = '\x0c' then ['\\', 'f']
  else if c = '\n' then ['\\', 'n']
  else if c = '\r' then ['\\', 'r']
  else if c = '\t' then ['\\', 't']
  else if c.toNat < 0x20 then
    ['\\', 'u', '0', '0', hexDigit (c.toNat / 16), hexDigit (c.toNat % 16)]
  else [c]

/-- A text between quotes. -/
def quoted (s : List Char) : List Char :=
  '"' :: s.flatMap quotedChar ++ ['"']

/-- A new line at a level. -/
def newLine (level : Nat) : List Char :=
  '\n' :: List.replicate (2 * level) ' '

mutual

/-- The text of a value whose first line stands at `level`. -/
def Value.pretty (level : Nat) : Value → List Char
  | .null => "null".toList
  | .bool b => (if b then "true" else "false").toList
  | .natural n => Nat.toDigits 10 n.toNat
  | .number spelling => spelling
  | .string s => quoted s
  | .array [] => ['[', ']']
  | .array (item :: items) =>
      '[' :: newLine (level + 1) ++ Value.pretty (level + 1) item ++
        prettyItems (level + 1) items ++ newLine level ++ [']']
  | .object [] => ['\x7b', '\x7d']
  | .object ((key, value) :: members) =>
      '\x7b' :: newLine (level + 1) ++ quoted key ++ [':', ' '] ++
        Value.pretty (level + 1) value ++ prettyMembers (level + 1) members ++ newLine level ++
        ['\x7d']

/-- The items after the first one, each behind a comma. -/
def prettyItems (level : Nat) : List Value → List Char
  | [] => []
  | item :: items =>
      ',' :: newLine level ++ Value.pretty level item ++ prettyItems level items

/-- The members after the first one, each behind a comma. -/
def prettyMembers (level : Nat) : List (List Char × Value) → List Char
  | [] => []
  | (key, value) :: members =>
      ',' :: newLine level ++ quoted key ++ [':', ' '] ++ Value.pretty level value ++
        prettyMembers level members

end

end SpanishLua.Json
