import SpanishLua.Rule

/-!
Tables of rules: within a category no two rules have one key, and rules keep the order in which
their keys came.
-/

namespace SpanishLua

/-- Why a rule does not fit a table. -/
inductive RuleError where
  | duplicate (category : Category) (token : String)
  | invalid (category : Category) (token : String)
deriving DecidableEq, Repr

/-- The wording of a rule error. -/
def RuleError.message : RuleError → String
  | duplicate category token => s!"duplicate {category.name} rule for '{token}'"
  | invalid category token => s!"'{token}' is not a valid {category.name} identifier"

/-- Rules in the order of their first insertion. -/
structure RuleTable where
  entries : List Rule
deriving DecidableEq, Repr

namespace RuleTable

/-- The table without rules. -/
def empty : RuleTable where
  entries := []

/-- The number of rules. -/
def size (t : RuleTable) : Nat :=
  t.entries.length

/-- The rules of a category, in order. -/
def rules (t : RuleTable) (category : Category) : List Rule :=
  t.entries.filter (·.category = category)

/-- The rule under a key of a category. -/
def find? (t : RuleTable) (category : Category) (key : List Char) : Option Rule :=
  (t.rules category).find? (·.key = key)

/-- The rule for a token of a category. -/
def lookup? (t : RuleTable) (category : Category) (token : String) : Option Rule :=
  t.find? category (wordKey token.toList)

/-- The text that stands for a token of a category. -/
def target? (t : RuleTable) (category : Category) (token : String) : Option String :=
  (t.lookup? category token).map (·.target)

/-- The table after a call, if the call succeeds. -/
def afterSuccess : Except RuleError Unit × RuleTable → Except RuleError RuleTable
  | (.ok (), t) => .ok t
  | (.error e, _) => .error e

/-- Adds a rule under a new key: the answer to the call, and the table after it. -/
def tryInsert (t : RuleTable) (r : Rule) : Except RuleError Unit × RuleTable :=
  if !r.isValid then (.error (.invalid r.category r.source), t)
  else if (t.find? r.category r.key).isSome then (.error (.duplicate r.category r.source), t)
  else (.ok (), { entries := t.entries ++ [r] })

/-- The table with a rule added under a new key. -/
def insert (t : RuleTable) (r : Rule) : Except RuleError RuleTable :=
  afterSuccess (t.tryInsert r)

/-- The rule that replaces `old`: a bound that `r` does not give is kept. -/
def replacement (old r : Rule) : Rule :=
  { r with maxArity := r.maxArity.or old.maxArity }

/-- Puts `r` in the place of the first rule under its key, or at the end. -/
def place (r : Rule) : List Rule → List Rule
  | [] => [r]
  | old :: rest =>
      if old.category = r.category ∧ old.key = r.key then replacement old r :: rest
      else old :: place r rest

/-- Adds a rule, or replaces the rule under its key: the answer to the call, and the table after
it. -/
def tryUpsert (t : RuleTable) (r : Rule) : Except RuleError Unit × RuleTable :=
  if !r.isValid then (.error (.invalid r.category r.source), t)
  else (.ok (), { entries := place r t.entries })

/-- The table with a rule added, or in the place of the rule under its key. -/
def upsert (t : RuleTable) (r : Rule) : Except RuleError RuleTable :=
  afterSuccess (t.tryUpsert r)

/-- The first fault among rules of one category, after rules with the keys `seen`. -/
def faultAmong? (seen : List (List Char)) : List Rule → Option RuleError
  | [] => none
  | r :: rest =>
      if !r.isValid then some (.invalid r.category r.source)
      else if seen.contains r.key then some (.duplicate r.category r.source)
      else faultAmong? (r.key :: seen) rest

/-- The first fault of the table, category by category. -/
def fault? (t : RuleTable) : Option RuleError :=
  Category.all.findSome? fun category => faultAmong? [] (t.rules category)

/-- Every rule is valid, and no category has two rules under one key. -/
def validate (t : RuleTable) : Except RuleError Unit :=
  match t.fault? with
  | some e => .error e
  | none => .ok ()

end RuleTable

end SpanishLua
