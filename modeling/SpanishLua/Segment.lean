import SpanishLua.Text.Lines

/-!
A line of source falls into segments: code, and string literals with their quotes. Code is subject
to the rules of the dialect, a literal is not.
-/

namespace SpanishLua

/-- A piece of a line. -/
inductive Segment where
  | code (text : List Char)
  | literal (text : List Char)
deriving DecidableEq, Repr

namespace Segment

/-- The characters of the segment. -/
def text : Segment → List Char
  | code t | literal t => t

/-- The segment is code. -/
def isCode : Segment → Bool
  | code _ => true
  | literal _ => false

/-- The quote of a literal and what stands between it and an equally long tail. A tail of that many
bytes has to end between two characters, and must not reach into the quote. -/
def body? : Segment → Option (Char × List Char)
  | code _ | literal [] => none
  | literal (quote :: rest) =>
      (Text.dropBytes? quote.utf8Size rest.reverse).map fun body => (quote, body.reverse)

/-- The text of a sequence of segments. -/
def join (segments : List Segment) : List Char :=
  segments.flatMap text

end Segment

/-- `c` delimits a string literal. -/
def isQuote (c : Char) : Bool :=
  c == '"' || c == '\''

/-- What stands before the next `quote` that is not escaped, and what stands after it. A quote is
escaped when the character before it, at first `previous`, is a backslash. -/
def closing? (quote previous : Char) : List Char → Option (List Char × List Char)
  | [] => none
  | c :: rest =>
      if c = quote ∧ previous ≠ '\\' then some ([], rest)
      else (closing? quote c rest).map fun (body, after) => (c :: body, after)

theorem closing?_length {quote previous : Char} {s body after : List Char}
    (h : closing? quote previous s = some (body, after)) : after.length < s.length := by
  induction s generalizing previous body with
  | nil => simp [closing?] at h
  | cons c rest ih =>
      rw [closing?] at h
      split at h
      · simp only [Option.some.injEq, Prod.mk.injEq] at h
        simp [← h.2]
      · simp only [Option.map_eq_some_iff, Prod.mk.injEq, Prod.exists] at h
        obtain ⟨b, a, hb, -, rfl⟩ := h
        have := ih hb
        simp only [List.length_cons]
        omega

/-- The code segment of a text, none if it is empty. -/
def codeOf (s : List Char) : List Segment :=
  if s.isEmpty then [] else [.code s]

/-- The segments of a line. A literal ends at the first quote of its kind that is not escaped; a
quote without such an end opens no literal, and all that follows it is code. -/
def partition (line : List Char) : List Segment :=
  match hq : line.dropWhile (!isQuote ·) with
  | [] => codeOf line
  | quote :: rest =>
      match hc : closing? quote quote rest with
      | none => codeOf line
      | some (body, after) =>
          codeOf (line.takeWhile (!isQuote ·)) ++
            .literal (quote :: body ++ [quote]) :: partition after
termination_by line.length
decreasing_by
  have h₁ := closing?_length hc
  have h₂ := (List.dropWhile_sublist (fun c => !isQuote c) (l := line)).length_le
  rw [hq, List.length_cons] at h₂
  omega

end SpanishLua
