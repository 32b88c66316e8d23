import SpanishLua.Code.Call
import SpanishLua.Code.Enumeration
import SpanishLua.Code.Keyword
import SpanishLua.Code.Member
import SpanishLua.Code.Service

/-!
The six passes over code, and their order: an earlier pass sees the words of the dialect, a later
one what the earlier ones have put for them.
-/

namespace SpanishLua.Code

/-- A pass over code. -/
inductive Pass where
  | services
  | methods
  | constructors
  | properties
  | enums
  | keywords
deriving DecidableEq, Repr

namespace Pass

/-- The name of a pass. -/
def name : Pass → String
  | services => "services"
  | methods => "methods"
  | constructors => "constructors"
  | properties => "properties"
  | enums => "enums"
  | keywords => "keywords"

/-- All passes, in the order in which they run. -/
def order : List Pass :=
  [services, methods, constructors, properties, enums, keywords]

/-- The code after a pass. Only constructors can fail. -/
def apply (lexicon : Lexicon) (code : List Char) : Pass → Except ArityError (List Char)
  | services => .ok (Service.apply code)
  | methods => .ok (Call.applyMethods lexicon.methods code)
  | constructors => Call.applyConstructors lexicon.constructors lexicon.bounds code
  | properties => .ok (Member.apply lexicon.properties lexicon.mathFunctions code)
  | enums =>
      .ok (Enumeration.apply lexicon.enumFamilies lexicon.enumMembers lexicon.enumConstants code)
  | keywords => .ok (Keyword.apply lexicon.keywords lexicon.globalFunctions code)

/-- The code after all passes. -/
def applyAll (lexicon : Lexicon) (code : List Char) : Except ArityError (List Char) :=
  order.foldlM (apply lexicon) code

end Pass

end SpanishLua.Code
