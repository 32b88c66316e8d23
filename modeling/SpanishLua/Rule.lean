import SpanishLua.Text.Identifier
import SpanishLua.Text.Lowercase

/-!
Rules: a word of the dialect, the text that stands for it in Lua, and the kind of place where the
word has that meaning.
-/

namespace SpanishLua

/-- The kinds of words that rules are about. -/
inductive Category where
  | keyword
  | globalFunction
  | methodName
  | constructorName
  | propertyName
  | mathFunction
  | serviceName
  | enumFamily
  | enumMember
  | enumConstant
deriving DecidableEq, Repr

namespace Category

/-- All categories, in the order in which a table is checked. -/
def all : List Category :=
  [keyword, globalFunction, methodName, constructorName, propertyName, mathFunction, serviceName,
   enumFamily, enumMember, enumConstant]

/-- The name of a category in messages. -/
def name : Category → String
  | keyword => "keyword"
  | globalFunction => "global-function"
  | methodName => "method"
  | constructorName => "constructor"
  | propertyName => "property"
  | mathFunction => "math-function"
  | serviceName => "service"
  | enumFamily => "enum-family"
  | enumMember => "enum-member"
  | enumConstant => "enum-constant"

end Category

/-- A rule. A constructor may bound the number of its arguments. -/
structure Rule where
  category : Category
  source : String
  target : String
  maxArity : Option Nat := none
deriving DecidableEq, Repr

/-- Words are told apart by their lower case. -/
def wordKey (token : List Char) : List Char :=
  Text.lowercase token

/-- A character that may start an identifier, then characters that may continue one. -/
def isIdentifier : List Char → Bool
  | [] => false
  | c :: rest => Text.startsIdentifier c && rest.all Text.continuesIdentifier

/-- `source` has the form that the category asks for: an identifier, or two identifiers with a dot
between them for the item of an enumeration. -/
def Category.admits (category : Category) (source : List Char) : Bool :=
  match category with
  | .enumMember =>
      match source.dropWhile (· != '.') with
      | [] => false
      | _ :: member => isIdentifier (source.takeWhile (· != '.')) && isIdentifier member
  | _ => isIdentifier source

namespace Rule

/-- The key of the rule's source. -/
def key (r : Rule) : List Char :=
  wordKey r.source.toList

/-- The source has the form that its category asks for. -/
def hasValidSource (r : Rule) : Bool :=
  r.category.admits r.source.toList

/-- The rule may stand in a table. -/
def isValid (r : Rule) : Bool :=
  r.hasValidSource && r.target != ""

end Rule

end SpanishLua
