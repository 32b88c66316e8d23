import SpanishLua.Config.Overrides
import SpanishLua.Files.PathPattern
import SpanishLua.Rule.Defaults

/-!
The configuration of a project: which files it has, the extension of what is written, further
denied words, and rules that replace or extend the default ones.
-/

namespace SpanishLua

open Files (PathPattern PatternError)

/-- A constructor's target, alone or with a bound on its arguments. -/
inductive ConstructorOverride where
  | target (lua : String)
  | bounded (lua : String) (maxArity : Option UInt64)
deriving DecidableEq

/-- The rule that an override of a constructor makes. -/
def ConstructorOverride.rule (source : String) : ConstructorOverride → Rule
  | target lua => { category := .constructorName, source, target := lua }
  | bounded lua maxArity =>
      { category := .constructorName, source, target := lua
        maxArity := maxArity.map UInt64.toNat }

/-- Rules of the configuration, by category. -/
structure RuleOverrides where
  keywords : Overrides String := .empty
  globalFunctions : Overrides String := .empty
  methods : Overrides String := .empty
  constructors : Overrides ConstructorOverride := .empty
  properties : Overrides String := .empty
  mathFunctions : Overrides String := .empty
  services : Overrides String := .empty
  enumFamilies : Overrides String := .empty
  enumMembers : Overrides String := .empty
  enumConstants : Overrides String := .empty

namespace RuleOverrides

/-- Rules of one category. -/
def rulesOf (category : Category) (overrides : Overrides String) : List Rule :=
  overrides.entries.map fun (source, target) => { category, source, target }

/-- All rules in the order in which they are merged: category by category, keys ascending, and the
constructors last. -/
def rules (o : RuleOverrides) : List Rule :=
  rulesOf .keyword o.keywords ++ rulesOf .globalFunction o.globalFunctions ++
    rulesOf .methodName o.methods ++ rulesOf .propertyName o.properties ++
    rulesOf .mathFunction o.mathFunctions ++ rulesOf .serviceName o.services ++
    rulesOf .enumFamily o.enumFamilies ++ rulesOf .enumMember o.enumMembers ++
    rulesOf .enumConstant o.enumConstants ++
    o.constructors.entries.map fun (source, override) => override.rule source

end RuleOverrides

/-- A configuration. -/
structure Config where
  includes : List String := ["**/*.vox"]
  ignores : List String := []
  outputExtension : String := "lua"
  forbiddenWords : List String := []
  rules : RuleOverrides := {}

/-- What is wrong with a configuration. -/
inductive ConfigError where
  /-- A pattern of a field, as the check of the configuration reports it. -/
  | fieldPattern (field : String) (text : String) (cause : PatternError)
  | emptyExtension
  /-- A pattern, as its use reports it. -/
  | pattern (text : String) (cause : PatternError)
  | override (source : String) (cause : RuleError)
deriving DecidableEq

/-- The wording of a configuration error, the outermost part first. -/
def ConfigError.chain : ConfigError → List String
  | fieldPattern field text cause =>
      [s!"Invalid glob pattern in '{field}': \"{text}\"", cause.message]
  | emptyExtension => ["'outputExtension' must not be empty"]
  | pattern text cause => [s!"Invalid glob pattern: \"{text}\"", cause.message]
  | override source cause => [s!"Invalid rule override in config: \"{source}\"", cause.message]

namespace Config

/-- The extension of what is written, without dots before it. -/
def extension (c : Config) : String :=
  String.ofList (c.outputExtension.toList.dropWhile (· == '.'))

/-- The first pattern of a list that is none. -/
def patternFault? (patterns : List String) : Option (String × PatternError) :=
  patterns.findSome? fun pattern =>
    match PathPattern.parse pattern.toList with
    | .error e => some (pattern, e)
    | .ok _ => none

/-- The first fault of the configuration: patterns to ignore, then patterns to include, then the
extension. Rules are checked when they are merged. -/
def fault? (c : Config) : Option ConfigError :=
  match patternFault? c.ignores with
  | some (pattern, cause) => some (.fieldPattern "ignores" pattern cause)
  | none =>
      match patternFault? c.includes with
      | some (pattern, cause) => some (.fieldPattern "includes" pattern cause)
      | none => if c.extension == "" then some .emptyExtension else none

/-- The patterns that texts spell. -/
def parsePatterns (patterns : List String) : Except ConfigError (List PathPattern) :=
  patterns.mapM fun pattern =>
    match PathPattern.parse pattern.toList with
    | .error e => .error (.pattern pattern e)
    | .ok p => .ok p

/-- The patterns to include and the patterns to ignore. -/
def patterns (c : Config) : Except ConfigError (List PathPattern × List PathPattern) :=
  match parsePatterns c.includes with
  | .error e => .error e
  | .ok includes =>
      match parsePatterns c.ignores with
      | .error e => .error e
      | .ok ignores => .ok (includes, ignores)

/-- Merges rules into a table, one after the other. -/
def mergeRules (t : RuleTable) : List Rule → Except ConfigError RuleTable
  | [] => .ok t
  | r :: rest =>
      match t.upsert r with
      | .error e => .error (.override r.source e)
      | .ok t => mergeRules t rest

/-- The default rules with those of the configuration merged into them. -/
def ruleTable (c : Config) : Except ConfigError RuleTable :=
  mergeRules .default c.rules.rules

end Config

end SpanishLua
