import SpanishLua.Rule.Table

/-!
The words of a category as a scanner needs them: the longest first, so that no word hides a longer
one that starts with it, and the texts that stand for them by key.
-/

namespace SpanishLua

/-- The words of one category. -/
structure Vocabulary where
  words : List (List Char)
  targets : List (List Char × List Char)

namespace Vocabulary

/-- `a` is longer than `b` in bytes, or as long and not after it in alphabetical order. -/
def standsBefore (a b : String) : Bool :=
  b.utf8ByteSize < a.utf8ByteSize || (a.utf8ByteSize == b.utf8ByteSize && a ≤ b)

/-- Words by falling length in bytes, and words of one length in alphabetical order. -/
def longestFirst (words : List String) : List String :=
  words.mergeSort standsBefore

/-- The words of a category of a table. -/
def ofTable (t : RuleTable) (category : Category) : Vocabulary where
  words := (longestFirst ((t.rules category).map (·.source))).map String.toList
  targets := ((t.rules category).map fun r => (r.key, r.target.toList)).reverse

/-- The text that stands for a token, case apart. -/
def target? (v : Vocabulary) (token : List Char) : Option (List Char) :=
  v.targets.lookup (wordKey token)

end Vocabulary

/-- A constructor with a bound on its arguments. -/
structure Bound where
  source : List Char
  target : List Char
  max : Nat

/-- The words of a table, apart by category, and its bounds. -/
structure Lexicon where
  keywords : Vocabulary
  globalFunctions : Vocabulary
  methods : Vocabulary
  constructors : Vocabulary
  properties : Vocabulary
  mathFunctions : Vocabulary
  services : Vocabulary
  enumFamilies : Vocabulary
  enumMembers : Vocabulary
  enumConstants : Vocabulary
  bounds : List Bound

namespace Lexicon

/-- The bounds that the constructors of a table give, in order. -/
def boundsOf (t : RuleTable) : List Bound :=
  (t.rules .constructorName).filterMap fun r =>
    r.maxArity.map fun max => { source := r.source.toList, target := r.target.toList, max }

/-- The words of a table. -/
def ofTable (t : RuleTable) : Lexicon where
  keywords := .ofTable t .keyword
  globalFunctions := .ofTable t .globalFunction
  methods := .ofTable t .methodName
  constructors := .ofTable t .constructorName
  properties := .ofTable t .propertyName
  mathFunctions := .ofTable t .mathFunction
  services := .ofTable t .serviceName
  enumFamilies := .ofTable t .enumFamily
  enumMembers := .ofTable t .enumMember
  enumConstants := .ofTable t .enumConstant
  bounds := boundsOf t

end Lexicon

end SpanishLua
