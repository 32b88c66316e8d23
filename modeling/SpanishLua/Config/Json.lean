import SpanishLua.Config
import SpanishLua.Json.Reader

namespace SpanishLua

open Json

namespace ConstructorOverride

/-- The override as a JSON value. -/
def toValue : ConstructorOverride → Value
  | target lua => .string lua.toList
  | bounded lua maxArity =>
      .object
        [("target".toList, .string lua.toList),
         ("maxArity".toList, match maxArity with | none => .null | some n => .natural n)]

/-- The values under a key of an object. -/
def valuesUnder (key : String) (members : List (List Char × Value)) : List Value :=
  (members.filter (·.1 = key.toList)).map (·.2)

/-- The override that a JSON value stands for: a string, or an object with one target and at most
one bound. Other members do not matter. -/
def ofValue? : Value → Option ConstructorOverride
  | .string s => some (.target (String.ofList s))
  | .object members =>
      match valuesUnder "target" members, valuesUnder "maxArity" members with
      | [.string s], [] | [.string s], [.null] => some (.bounded (String.ofList s) none)
      | [.string s], [.natural n] => some (.bounded (String.ofList s) (some n))
      | _, _ => none
  | _ => none

/-- Brackets stand at most this deep inside an override: a text may be 127 brackets deep, and
three of them are around it. -/
def maxDepth : Nat := 124

/-- Reads an override. The value is read as a whole before its shape is looked at. -/
def read (s : List Char) : Step ConstructorOverride :=
  match readValue .full maxDepth s with
  | .error f => .error f
  | .ok (value, rest) =>
      match ofValue? value with
      | none => .error .shape
      | some override => .ok (override, rest)

end ConstructorOverride

namespace Overrides

variable {α : Type}

/-- The values under their keys as a JSON object. -/
def toValue (o : Overrides α) (value : α → Value) : Value :=
  .object (o.entries.map fun (key, a) => (key.toList, value a))

/-- Reads an object with values of one shape. -/
def read (value : List Char → Step α) (s : List Char) : Step (Overrides α) :=
  match readObject value s with
  | .error f => .error f
  | .ok (members, rest) =>
      .ok (ofList (members.map fun (key, a) => (String.ofList key, a)), rest)

end Overrides

/-- A string as a JSON value. -/
def textValue (s : String) : Value :=
  .string s.toList

/-- Strings as a JSON value. -/
def textsValue (l : List String) : Value :=
  .array (l.map textValue)

/-- Reads a string. -/
def readTextString (s : List Char) : Step String :=
  match readText s with
  | .error f => .error f
  | .ok (t, rest) => .ok (String.ofList t, rest)

/-- A field whose value replaces a part of the record. -/
def settingField {ρ α : Type} (key : String) (read : List Char → Step α) (set : ρ → α → ρ) :
    RecordField ρ where
  key := key.toList
  read r s :=
    match read s with
    | .error f => .error f
    | .ok (a, rest) => .ok (set r a, rest)

namespace RuleOverrides

/-- The rules as a JSON object. -/
def toValue (o : RuleOverrides) : Value :=
  .object
    [("keywords".toList, o.keywords.toValue textValue),
     ("globalFunctions".toList, o.globalFunctions.toValue textValue),
     ("methods".toList, o.methods.toValue textValue),
     ("constructors".toList, o.constructors.toValue ConstructorOverride.toValue),
     ("properties".toList, o.properties.toValue textValue),
     ("mathFunctions".toList, o.mathFunctions.toValue textValue),
     ("services".toList, o.services.toValue textValue),
     ("enumFamilies".toList, o.enumFamilies.toValue textValue),
     ("enumMembers".toList, o.enumMembers.toValue textValue),
     ("enumConstants".toList, o.enumConstants.toValue textValue)]

/-- The fields of the rules, in order. -/
def fields : List (RecordField RuleOverrides) :=
  [settingField "keywords" (Overrides.read readTextString) ({ · with keywords := · }),
   settingField "globalFunctions" (Overrides.read readTextString)
     ({ · with globalFunctions := · }),
   settingField "methods" (Overrides.read readTextString) ({ · with methods := · }),
   settingField "constructors" (Overrides.read ConstructorOverride.read)
     ({ · with constructors := · }),
   settingField "properties" (Overrides.read readTextString) ({ · with properties := · }),
   settingField "mathFunctions" (Overrides.read readTextString) ({ · with mathFunctions := · }),
   settingField "services" (Overrides.read readTextString) ({ · with services := · }),
   settingField "enumFamilies" (Overrides.read readTextString) ({ · with enumFamilies := · }),
   settingField "enumMembers" (Overrides.read readTextString) ({ · with enumMembers := · }),
   settingField "enumConstants" (Overrides.read readTextString) ({ · with enumConstants := · })]

end RuleOverrides

namespace Config

/-- The configuration as a JSON object. -/
def toValue (c : Config) : Value :=
  .object
    [("includes".toList, textsValue c.includes),
     ("ignores".toList, textsValue c.ignores),
     ("outputExtension".toList, textValue c.outputExtension),
     ("forbiddenWords".toList, textsValue c.forbiddenWords),
     ("rules".toList, c.rules.toValue)]

/-- The text of the configuration. -/
def toText (c : Config) : List Char :=
  c.toValue.pretty 0

/-- The fields of a configuration, in order. -/
def fields : List (RecordField Config) :=
  [settingField "includes" (readArray readTextString) ({ · with includes := · }),
   settingField "ignores" (readArray readTextString) ({ · with ignores := · }),
   settingField "outputExtension" readTextString ({ · with outputExtension := · }),
   settingField "forbiddenWords" (readArray readTextString) ({ · with forbiddenWords := · }),
   settingField "rules" (readRecord RuleOverrides.fields {}) ({ · with rules := · })]

/-- Reads a configuration. What the text leaves out is as in the default one. -/
def ofText (s : List Char) : Except Fault Config :=
  readAll (readRecord fields {}) s

end Config

end SpanishLua
