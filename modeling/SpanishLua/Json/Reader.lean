import SpanishLua.Json.Value

/-!
Reading JSON text from left to right. A reader takes what it needs from the front of a text and
returns the rest, so that of several faults the first one met is reported.
-/

namespace SpanishLua.Json

/-- Why a text cannot be read: it is not JSON, it ends too early, or it is JSON of another shape
than the one asked for. -/
inductive Fault where
  | malformed
  | truncated
  | shape
deriving DecidableEq, Repr

/-- What a reader makes of a text: a value and the rest, or a fault. -/
abbrev Step (α : Type) := Except Fault (α × List Char)

/-- How closely a value is read. A value that is only passed over may hold unpaired surrogates and
numbers of any size. -/
inductive Care where
  | full
  | passing
deriving DecidableEq, Repr

/-- `c` may stand between the parts of a JSON text. -/
def isGap (c : Char) : Bool :=
  c == ' ' || c == '\n' || c == '\t' || c == '\r'

/-- The text from its first character that is no gap. -/
def skipGap (s : List Char) : List Char :=
  s.dropWhile isGap

/-! ### Strings -/

/-- The value of a hexadecimal digit. -/
def hexValue? (c : Char) : Option Nat :=
  let n := c.toNat
  if 0x30 ≤ n ∧ n ≤ 0x39 then some (n - 0x30)
  else if 0x61 ≤ n ∧ n ≤ 0x66 then some (n - 0x61 + 10)
  else if 0x41 ≤ n ∧ n ≤ 0x46 then some (n - 0x41 + 10)
  else none

/-- Four hexadecimal digits. The text is too short for them if it has less than four bytes. -/
def readHex (s : List Char) : Step Nat :=
  match s with
  | a :: b :: c :: d :: rest =>
      match hexValue? a, hexValue? b, hexValue? c, hexValue? d with
      | some a, some b, some c, some d => .ok (((a * 16 + b) * 16 + c) * 16 + d, rest)
      | _, _, _, _ => .error .malformed
  | _ => .error (if Text.byteLength s < 4 then .truncated else .malformed)

/-- The second half of a character beyond the first plane, after the half `high`. -/
def readLowSurrogate (high : Nat) : List Char → Step Char
  | [] | ['\\'] => .error .truncated
  | '\\' :: 'u' :: s =>
      match readHex s with
      | .error f => .error f
      | .ok (low, rest) =>
          if 0xDC00 ≤ low ∧ low ≤ 0xDFFF then
            .ok (Char.ofNat ((high - 0xD800) * 0x400 + (low - 0xDC00) + 0x10000), rest)
          else .error .malformed
  | _ => .error .malformed

/-- A character given by its code units. -/
def readUnicodeEscape (care : Care) (s : List Char) : Step Char :=
  match readHex s with
  | .error f => .error f
  | .ok (n, rest) =>
      if care = .passing then .ok (Char.ofNat n, rest)
      else if 0xDC00 ≤ n ∧ n ≤ 0xDFFF then .error .malformed
      else if 0xD800 ≤ n ∧ n ≤ 0xDBFF then readLowSurrogate n rest
      else .ok (Char.ofNat n, rest)

/-- The character that a letter after a backslash stands for. -/
def simpleEscape? (c : Char) : Option Char :=
  match c with
  | '"' => some '"'
  | '\\' => some '\\'
  | '/' => some '/'
  | 'b' => some '\x08'
  | 'f' => some '\x0c'
  | 'n' => some '\n'
  | 'r' => some '\r'
  | 't' => some '\t'
  | _ => none

/-- What follows a backslash. -/
def readEscape (care : Care) : List Char → Step Char
  | [] => .error .truncated
  | 'u' :: s => readUnicodeEscape care s
  | c :: s =>
      match simpleEscape? c with
      | some d => .ok (d, s)
      | none => .error .malformed

theorem readHex_length {s rest : List Char} {n : Nat} (h : readHex s = .ok (n, rest)) :
    rest.length < s.length := by
  unfold readHex at h
  split at h
  · split at h
    · simp only [Except.ok.injEq, Prod.mk.injEq] at h
      simp only [← h.2, List.length_cons]
      omega
    · simp at h
  · simp at h

theorem readLowSurrogate_length {high : Nat} {s rest : List Char} {c : Char}
    (h : readLowSurrogate high s = .ok (c, rest)) : rest.length < s.length := by
  unfold readLowSurrogate at h
  split at h
  · simp at h
  · simp at h
  · split at h
    · simp at h
    · rename_i hex
      have := readHex_length hex
      split at h
      · simp only [Except.ok.injEq, Prod.mk.injEq] at h
        simp only [← h.2, List.length_cons]
        omega
      · simp at h
  · simp at h

theorem readEscape_length {care : Care} {s rest : List Char} {c : Char}
    (h : readEscape care s = .ok (c, rest)) : rest.length < s.length := by
  unfold readEscape at h
  split at h
  · simp at h
  · unfold readUnicodeEscape at h
    split at h
    · simp at h
    · rename_i hex
      have := readHex_length hex
      simp only [List.length_cons]
      split at h
      · simp only [Except.ok.injEq, Prod.mk.injEq] at h
        simp only [← h.2]
        omega
      · split at h
        · simp at h
        · split at h
          · have := readLowSurrogate_length h
            omega
          · simp only [Except.ok.injEq, Prod.mk.injEq] at h
            simp only [← h.2]
            omega
  · split at h
    · simp only [Except.ok.injEq, Prod.mk.injEq] at h
      simp [← h.2]
    · simp at h

/-- The rest of a string, after its opening quote. -/
def readString (care : Care) (s : List Char) : Step (List Char) :=
  match s with
  | [] => .error .truncated
  | c :: rest =>
      if c = '"' then .ok ([], rest)
      else if c = '\\' then
        match h : readEscape care rest with
        | .error f => .error f
        | .ok (d, rest) =>
            match readString care rest with
            | .error f => .error f
            | .ok (body, rest) => .ok (d :: body, rest)
      else if c.toNat < 0x20 then .error .malformed
      else
        match readString care rest with
        | .error f => .error f
        | .ok (body, rest) => .ok (c :: body, rest)
termination_by s.length
decreasing_by
  · have := readEscape_length h
    simp only [List.length_cons]
    omega
  · simp

/-! ### Numbers -/

/-- `c` is a digit. -/
def isDigit (c : Char) : Bool :=
  0x30 ≤ c.toNat && c.toNat ≤ 0x39

/-- The number that digits spell. -/
def digitsValue (digits : List Char) : Nat :=
  digits.foldl (fun n c => 10 * n + (c.toNat - 0x30)) 0

/-- The fault where a digit is missing. A text that ends there ends too early, which is not told
apart in passing. -/
def missingDigit (care : Care) (s : List Char) : Fault :=
  if care = .full ∧ s.isEmpty then .truncated else .malformed

/-- At least one digit. -/
def readDigits (care : Care) (s : List Char) : Step (List Char) :=
  let digits := s.takeWhile isDigit
  if digits.isEmpty then .error (missingDigit care s) else .ok (digits, s.dropWhile isDigit)

/-- The digits before the point. Only a single zero starts with zero. -/
def readInteger (care : Care) (s : List Char) : Step (List Char) :=
  match readDigits care s with
  | .ok ('0' :: _ :: _, _) => .error .malformed
  | answer => answer

/-- The digits after the point, none if there is no point. -/
def readFraction (care : Care) : List Char → Step (List Char)
  | '.' :: s => readDigits care s
  | s => .ok ([], s)

/-- The exponent's sign and digits. -/
def readSignedDigits (care : Care) (s : List Char) : Step Int :=
  match s with
  | '-' :: s =>
      match readDigits care s with
      | .error f => .error f
      | .ok (digits, rest) => .ok (-(digitsValue digits : Int), rest)
  | '+' :: s =>
      match readDigits care s with
      | .error f => .error f
      | .ok (digits, rest) => .ok (digitsValue digits, rest)
  | s =>
      match readDigits care s with
      | .error f => .error f
      | .ok (digits, rest) => .ok (digitsValue digits, rest)

/-- The exponent, if there is one. -/
def readExponent (care : Care) : List Char → Step (Option Int)
  | 'e' :: s | 'E' :: s =>
      match readSignedDigits care s with
      | .error f => .error f
      | .ok (exponent, rest) => .ok (some exponent, rest)
  | s => .ok (none, s)

/-- Puts digits behind the number `n` as long as the result fits in 64 bits, and returns the digits
that are left. -/
def takeDigits (n : Nat) : List Char → Nat × List Char
  | [] => (n, [])
  | c :: rest =>
      let next := 10 * n + (c.toNat - 0x30)
      if next < UInt64.size then takeDigits next rest else (n, c :: rest)

/-- The nearest number with 53 binary digits, of two equally near ones the even one. -/
def roundBinary (n : Nat) : Nat :=
  let unit := Nat.pow 2 (n.log2 + 1 - 53)
  let whole := n / unit
  let part := 2 * (n % unit)
  if part < unit ∨ part = unit ∧ whole % 2 = 0 then whole * unit else (whole + 1) * unit

/-- The least number that is too large for a double-precision float: halfway between the largest
one and the next power of two. -/
def floatLimit : Nat :=
  Nat.pow 2 1024 - Nat.pow 2 970

/-- The largest power of ten that is a double-precision float. -/
def maxPower : Nat := 308

/-- A number is too large for a float. Only so many of its digits count as fit in 64 bits, the
others stand for zeros; these digits and the power of ten are rounded each, and then their
product. -/
def isTooLarge (whole fraction : List Char) (exponent : Int) : Bool :=
  let (n, dropped) := takeDigits 0 whole
  let (n, ignored) := takeDigits n fraction
  let power := exponent + dropped.length + ignored.length - fraction.length
  n != 0 && 0 ≤ power &&
    (maxPower < power || floatLimit ≤ roundBinary n * roundBinary (Nat.pow 10 power.toNat))

/-- A number without its sign. -/
def readUnsigned (care : Care) (negative : Bool) (s : List Char) : Step Value :=
  match readInteger care s with
  | .error f => .error f
  | .ok (whole, rest) =>
      match readFraction care rest with
      | .error f => .error f
      | .ok (fraction, rest) =>
          match readExponent care rest with
          | .error f => .error f
          | .ok (exponent, rest) =>
              let spelling := s.take (s.length - rest.length)
              let n := digitsValue whole
              if care = .full ∧ isTooLarge whole fraction (exponent.getD 0) then
                .error .malformed
              else if ¬negative ∧ fraction.isEmpty ∧ exponent.isNone ∧ n < UInt64.size then
                .ok (.natural (UInt64.ofNat n), rest)
              else .ok (.number (if negative then '-' :: spelling else spelling), rest)

/-! ### Values -/

/-- The letters of a fixed word. -/
def readLetters {α : Type} (a : α) : (letters : List Char) → List Char → Step α
  | [], s => .ok (a, s)
  | _ :: _, [] => .error .truncated
  | letter :: letters, c :: s =>
      if c = letter then readLetters a letters s else .error .malformed

/-- What follows an item inside brackets: another item, or the end. -/
def readSeparator (close : Char) (s : List Char) : Step Bool :=
  match skipGap s with
  | [] => .error .truncated
  | c :: rest =>
      if c = close then .ok (false, rest)
      else if c = ',' then .ok (true, rest)
      else .error .malformed

/-- Reads items up to the closing bracket, the first of which starts in `s`. -/
def foldItems {σ : Type} (item : σ → List Char → Step σ) (close : Char) (state : σ)
    (s : List Char) : Step σ :=
  match item state s with
  | .error f => .error f
  | .ok (state, rest) =>
      match readSeparator close rest with
      | .error f => .error f
      | .ok (false, rest) => .ok (state, rest)
      | .ok (true, next) =>
          if next.length < s.length then foldItems item close state next
          else .error .malformed
termination_by s.length

/-- Reads items, if there are any, up to the closing bracket. -/
def foldBracketed {σ : Type} (item : σ → List Char → Step σ) (close : Char) (state : σ)
    (s : List Char) : Step σ :=
  match skipGap s with
  | [] => .error .truncated
  | c :: rest => if c = close then .ok (state, rest) else foldItems item close state (c :: rest)

/-- The key of a member. -/
def readKey (care : Care) (s : List Char) : Step (List Char) :=
  match skipGap s with
  | [] => .error .truncated
  | c :: rest => if c = '"' then readString care rest else .error .malformed

/-- The colon after a key. -/
def readColon (s : List Char) : Step Unit :=
  match skipGap s with
  | [] => .error .truncated
  | c :: rest => if c = ':' then .ok ((), rest) else .error .malformed

/-- Adds an item at the end of a list. -/
def appendItem {α : Type} (item : List Char → Step α) (items : List α) (s : List Char) :
    Step (List α) :=
  match item s with
  | .error f => .error f
  | .ok (a, rest) => .ok (items ++ [a], rest)

/-- Adds a member at the end of a list. -/
def appendMember {α : Type} (care : Care) (value : List Char → Step α)
    (members : List (List Char × α)) (s : List Char) : Step (List (List Char × α)) :=
  match readKey care s with
  | .error f => .error f
  | .ok (key, rest) =>
      match readColon rest with
      | .error f => .error f
      | .ok ((), rest) =>
          match value rest with
          | .error f => .error f
          | .ok (a, rest) => .ok (members ++ [(key, a)], rest)

/-- A value in which brackets stand at most `depth` deep. -/
def readValue (care : Care) : (depth : Nat) → List Char → Step Value
  | depth, s =>
      match skipGap s with
      | [] => .error .truncated
      | c :: rest =>
          if c = 'n' then readLetters .null "ull".toList rest
          else if c = 't' then readLetters (.bool true) "rue".toList rest
          else if c = 'f' then readLetters (.bool false) "alse".toList rest
          else if c = '-' then readUnsigned care true rest
          else if isDigit c then readUnsigned care false (c :: rest)
          else if c = '"' then
            match readString care rest with
            | .error f => .error f
            | .ok (body, rest) => .ok (.string body, rest)
          else
            match depth with
            | 0 => .error .malformed
            | depth + 1 =>
                if c = '[' then
                  match foldBracketed (appendItem (readValue care depth)) ']' [] rest with
                  | .error f => .error f
                  | .ok (items, rest) => .ok (.array items, rest)
                else if c = '\x7b' then
                  match foldBracketed (appendMember care (readValue care depth)) '\x7d' [] rest with
                  | .error f => .error f
                  | .ok (members, rest) => .ok (.object members, rest)
                else .error .malformed

/-- Passes over a value, however deep. -/
def skipValue (s : List Char) : Step Unit :=
  match readValue .passing s.length s with
  | .error f => .error f
  | .ok (_, rest) => .ok ((), rest)

/-! ### Values of a given shape -/

/-- The fault of a value, at the front of `s`, that has not the shape asked for. A scalar is read
first, so that a fault inside it comes first. -/
def wrongShape (s : List Char) : Fault :=
  match s with
  | '[' :: _ | '\x7b' :: _ => .shape
  | _ =>
      match readValue .full 0 s with
      | .error f => f
      | .ok _ => .shape

/-- A string. -/
def readText (s : List Char) : Step (List Char) :=
  match skipGap s with
  | [] => .error .truncated
  | c :: rest => if c = '"' then readString .full rest else .error (wrongShape (c :: rest))

/-- An array with items of one shape. -/
def readArray {α : Type} (item : List Char → Step α) (s : List Char) : Step (List α) :=
  match skipGap s with
  | [] => .error .truncated
  | c :: rest =>
      if c = '[' then foldBracketed (appendItem item) ']' [] rest
      else .error (wrongShape (c :: rest))

/-- An object with values of one shape under keys of any kind. -/
def readObject {α : Type} (value : List Char → Step α) (s : List Char) :
    Step (List (List Char × α)) :=
  match skipGap s with
  | [] => .error .truncated
  | c :: rest =>
      if c = '\x7b' then foldBracketed (appendMember .full value) '\x7d' [] rest
      else .error (wrongShape (c :: rest))

/-- A field of a record: its key, and how its value changes the record. -/
structure RecordField (ρ : Type) where
  key : List Char
  read : ρ → List Char → Step ρ

/-- Reads the value of the next field in order. -/
def readPositional {ρ : Type} (state : List (RecordField ρ) × ρ) (s : List Char) :
    Step (List (RecordField ρ) × ρ) :=
  match state with
  | ([], _) => .error .malformed
  | (field :: fields, r) =>
      match field.read r s with
      | .error f => .error f
      | .ok (r, rest) => .ok ((fields, r), rest)

/-- Reads a member of a record. Members under unknown keys are passed over, and a key of a field may
come once; `seen` holds the keys that came. -/
def readNamed {ρ : Type} (fields : List (RecordField ρ)) (state : List (List Char) × ρ)
    (s : List Char) : Step (List (List Char) × ρ) :=
  let (seen, r) := state
  match readKey .full s with
  | .error f => .error f
  | .ok (key, rest) =>
      match fields.find? (·.key = key) with
      | none =>
          match readColon rest with
          | .error f => .error f
          | .ok ((), rest) =>
              match skipValue rest with
              | .error f => .error f
              | .ok ((), rest) => .ok ((seen, r), rest)
      | some field =>
          if seen.contains key then .error .shape
          else
            match readColon rest with
            | .error f => .error f
            | .ok ((), rest) =>
                match field.read r rest with
                | .error f => .error f
                | .ok (r, rest) => .ok ((key :: seen, r), rest)

/-- A record: an object, or an array with the values of the fields in order. A field that does not
come leaves the record as it is. -/
def readRecord {ρ : Type} (fields : List (RecordField ρ)) (start : ρ) (s : List Char) : Step ρ :=
  match skipGap s with
  | [] => .error .truncated
  | c :: rest =>
      if c = '[' then
        match foldBracketed readPositional ']' (fields, start) rest with
        | .error f => .error f
        | .ok ((_, r), rest) => .ok (r, rest)
      else if c = '\x7b' then
        match foldBracketed (readNamed fields) '\x7d' ([], start) rest with
        | .error f => .error f
        | .ok ((_, r), rest) => .ok (r, rest)
      else .error (wrongShape (c :: rest))

/-- All of a text, gaps around it aside. -/
def readAll {α : Type} (read : List Char → Step α) (s : List Char) : Except Fault α :=
  match read s with
  | .error f => .error f
  | .ok (a, rest) => if (skipGap rest).isEmpty then .ok a else .error .malformed

end SpanishLua.Json
