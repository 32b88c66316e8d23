namespace SpanishLua.Command

/-- How a command ends. -/
inductive ExitStatus where
  | success
  | usage
  | semantic
  | error
  | forbiddenWord
deriving DecidableEq, Repr

namespace ExitStatus

/-- All statuses, from the mildest to the gravest. -/
def all : List ExitStatus :=
  [success, usage, semantic, error, forbiddenWord]

/-- The number that a process with this status returns. -/
def code : ExitStatus → Nat
  | success => 0
  | usage => 1
  | semantic => 2
  | error => 3
  | forbiddenWord => 4

/-- The graver of two statuses. -/
def worse (a b : ExitStatus) : ExitStatus :=
  if a.code < b.code then b else a

/-- The gravest of the given statuses. -/
def worst (l : List ExitStatus) : ExitStatus :=
  l.foldl worse success

end ExitStatus

end SpanishLua.Command
