namespace SpanishLua.Text

/-- Ranges of code points, bounds included, ascending and apart from each other. -/
abbrev Ranges := List (Nat × Nat)

/-- Some range holds `n`. The search ends at the first range that starts above it. -/
def Ranges.covers : Ranges → Nat → Bool
  | [], _ => false
  | (lo, hi) :: rest, n => if n < lo then false else n ≤ hi || Ranges.covers rest n

end SpanishLua.Text
