/-!
Patterns over paths. `?` stands for one character, `*` for any number of them, slashes included,
`**` for whole leading components, and brackets for a choice of characters.
-/

namespace SpanishLua.Files

/-- A character or a range of characters, bounds included. -/
inductive CharSpec where
  | single (c : Char)
  | range (lo hi : Char)
deriving DecidableEq, Repr

/-- `c` is the character, or lies in the range. -/
def CharSpec.admits : CharSpec → Char → Bool
  | single d, c => c == d
  | range lo hi, c => lo ≤ c && c ≤ hi

/-- A part of a pattern. -/
inductive PatternToken where
  | char (c : Char)
  | anyChar
  | anySequence
  | anyComponents
  | within (specs : List CharSpec)
  | outside (specs : List CharSpec)
deriving DecidableEq, Repr

/-- Why a text is no pattern. -/
inductive PatternFault where
  | wildcards
  | components
  | range
deriving DecidableEq, Repr

/-- A fault and the number of characters before the place where it shows. -/
structure PatternError where
  position : Nat
  fault : PatternFault
deriving DecidableEq, Repr

/-- The wording of a pattern fault. -/
def PatternFault.message : PatternFault → String
  | wildcards => "wildcards are either regular `*` or recursive `**`"
  | components => "recursive wildcards must form a single path component"
  | range => "invalid range pattern"

/-- The wording of a pattern error. -/
def PatternError.message (e : PatternError) : String :=
  s!"Pattern syntax error near position {e.position}: {e.fault.message}"

/-- A pattern as its parts. -/
structure PathPattern where
  tokens : List PatternToken
deriving DecidableEq, Repr

namespace PathPattern

/-- The characters and ranges between brackets. A dash at either end stands for itself. -/
def charSpecs : List Char → List CharSpec
  | lo :: '-' :: hi :: rest => .range lo hi :: charSpecs rest
  | c :: rest => .single c :: charSpecs rest
  | [] => []

/-- What stands before the next closing bracket, of which the first character is part whatever it
is, and what stands after it. -/
def bracketed? : List Char → Option (List Char × List Char)
  | [] => none
  | c :: rest =>
      match rest.dropWhile (· != ']') with
      | [] => none
      | _ :: after => some (c :: rest.takeWhile (· != ']'), after)

/-- The choice that follows an opening bracket, and what stands after it. -/
def choice? : List Char → Option (PatternToken × List Char)
  | '!' :: rest => (bracketed? rest).map fun (inner, after) => (.outside (charSpecs inner), after)
  | rest => (bracketed? rest).map fun (inner, after) => (.within (charSpecs inner), after)

/-- Adds `**`, unless the parts so far, last first, end in one that is not the very first part. -/
def addComponents : List PatternToken → List PatternToken
  | .anyComponents :: t :: rest => .anyComponents :: t :: rest
  | parts => .anyComponents :: parts

/-- The parts of the pattern text `s`, after the parts `parts`, last first, that the characters
`before`, nearest first, gave. Each step takes at least one character, so `fuel` characters are
enough for `s`. -/
def parseFrom (before : List Char) (parts : List PatternToken) :
    (fuel : Nat) → (s : List Char) → Except PatternError (List PatternToken)
  | 0, _ | _, [] => .ok parts.reverse
  | fuel + 1, '?' :: rest => parseFrom ('?' :: before) (.anyChar :: parts) fuel rest
  | fuel + 1, '*' :: rest =>
      let more := rest.takeWhile (· == '*')
      let after := rest.dropWhile (· == '*')
      let passed := more ++ '*' :: before
      match more with
      | [] => parseFrom passed (.anySequence :: parts) fuel after
      | [_] =>
          if before.head?.all (· == '/') then
            match after with
            | [] => parseFrom passed (addComponents parts) fuel []
            | '/' :: after => parseFrom ('/' :: passed) (addComponents parts) fuel after
            | _ :: _ => .error ⟨passed.length, .components⟩
          else .error ⟨before.length - 1, .components⟩
      | _ => .error ⟨before.length + 2, .wildcards⟩
  | fuel + 1, '[' :: rest =>
      match choice? rest with
      | none => .error ⟨before.length, .range⟩
      | some (part, after) =>
          let taken := rest.take (rest.length - after.length)
          parseFrom (taken.reverse ++ '[' :: before) (part :: parts) fuel after
  | fuel + 1, c :: rest => parseFrom (c :: before) (.char c :: parts) fuel rest

/-- The pattern that a text spells. -/
def parse (s : List Char) : Except PatternError PathPattern :=
  (parseFrom [] [] s.length s).map PathPattern.mk

/-- How the match of a pattern's remaining parts ends. A text that ends too early fails for good:
nothing that a wildcard takes can make it longer. -/
inductive Outcome where
  | matched
  | mismatch
  | tooShort
deriving DecidableEq, Repr

/-- Tries `next` on the text and then on each of its suffixes, until an answer is final. -/
def sweep (next : List Char → Outcome) : List Char → Outcome
  | [] => next []
  | c :: rest =>
      match next (c :: rest) with
      | .mismatch => sweep next rest
      | final => final

/-- Tries `next` after each slash and at last at the end, until an answer is final. -/
def sweepComponents (next : List Char → Outcome) : List Char → Outcome
  | [] => next []
  | c :: rest =>
      if c == '/' then
        match next rest with
        | .mismatch => sweepComponents next rest
        | final => final
      else sweepComponents next rest

/-- One part that stands for exactly one character admits it. -/
def admits : PatternToken → Char → Bool
  | .char d, c => c == d
  | .within specs, c => specs.any (·.admits c)
  | .outside specs, c => !specs.any (·.admits c)
  | _, _ => true

/-- Matches the parts of a pattern against a text. -/
def run : List PatternToken → List Char → Outcome
  | [], [] => .matched
  | [], _ :: _ => .mismatch
  | .anySequence :: parts, s => sweep (run parts) s
  | .anyComponents :: parts, s =>
      match run parts s with
      | .mismatch => sweepComponents (run parts) s
      | final => final
  | _ :: _, [] => .tooShort
  | part :: parts, c :: s => if admits part c then run parts s else .mismatch

/-- The pattern stands for the path. -/
def isMatch (p : PathPattern) (path : List Char) : Bool :=
  run p.tokens path == .matched

end PathPattern

end SpanishLua.Files
