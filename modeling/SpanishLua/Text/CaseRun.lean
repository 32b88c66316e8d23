namespace SpanishLua.Text

/-- The code points `first`, `first + step`, … up to `last`, all moved by `shift`. -/
structure CaseRun where
  first : Nat
  last : Nat
  step : Nat
  shift : Int

/-- The code point `n` belongs to the run. -/
def CaseRun.covers (r : CaseRun) (n : Nat) : Bool :=
  r.first ≤ n && n ≤ r.last && (n - r.first) % r.step == 0

/-- The image of `n` under the first run that covers it, or `n` itself. The runs ascend by first
code point, so the search ends at the first run that starts above `n`. -/
def mapCase : List CaseRun → Nat → Nat
  | [], n => n
  | r :: rest, n =>
      if n < r.first then n
      else if r.covers n then (n + r.shift).toNat
      else mapCase rest n

end SpanishLua.Text
