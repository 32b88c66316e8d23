import Mathlib.Data.List.TakeWhile
import SpanishLua.Segment

namespace SpanishLua.Proofs.Partition

/-- A text between two quotes of one kind. -/
def Quoted (text : List Char) : Prop :=
  ∃ quote body, isQuote quote = true ∧ text = quote :: body ++ [quote]

/-- Literals have their quotes, and code is followed by a literal or by nothing. -/
def Delimited : List Segment → Prop
  | [] => True
  | .code _ :: rest => (∀ s ∈ rest.head?, s.isCode = false) ∧ Delimited rest
  | .literal text :: rest => Quoted text ∧ Delimited rest

theorem closing?_eq_append {quote previous : Char} {s body after : List Char}
    (h : closing? quote previous s = some (body, after)) : s = body ++ quote :: after := by
  induction s generalizing previous body with
  | nil => simp [closing?] at h
  | cons c rest ih =>
      rw [closing?] at h
      split at h
      · rename_i hclose
        simp only [Option.some.injEq, Prod.mk.injEq] at h
        obtain ⟨rfl, rfl⟩ := h
        simp [hclose.1]
      · simp only [Option.map_eq_some_iff, Prod.mk.injEq, Prod.exists] at h
        obtain ⟨tail, after', hrest, rfl, rfl⟩ := h
        rw [ih hrest, List.cons_append]

@[simp] theorem join_nil : Segment.join [] = [] :=
  rfl

@[simp] theorem join_cons (s : Segment) (segments : List Segment) :
    Segment.join (s :: segments) = s.text ++ Segment.join segments :=
  rfl

@[simp] theorem join_append (left right : List Segment) :
    Segment.join (left ++ right) = Segment.join left ++ Segment.join right :=
  List.flatMap_append

@[simp] theorem join_codeOf (s : List Char) : Segment.join (codeOf s) = s := by
  rcases s with _ | ⟨c, s⟩ <;> simp [codeOf, Segment.text]

theorem dropWhile_eq_cons {line rest : List Char} {quote : Char}
    (h : line.dropWhile (!isQuote ·) = quote :: rest) :
    isQuote quote = true ∧ line = line.takeWhile (!isQuote ·) ++ quote :: rest := by
  have hstop := List.head?_dropWhile_not (fun c => !isQuote c) line
  rw [h] at hstop
  refine ⟨by simpa using hstop, ?_⟩
  rw [← h, List.takeWhile_append_dropWhile]

theorem join_partition (line : List Char) : Segment.join (partition line) = line := by
  fun_induction partition line with
  | case1 line hquote => exact join_codeOf line
  | case2 line quote rest hquote hclosing => exact join_codeOf line
  | case3 line quote rest hquote body after hclosing ih =>
      obtain ⟨-, hline⟩ := dropWhile_eq_cons hquote
      calc
        _ = line.takeWhile (!isQuote ·) ++ (quote :: body ++ [quote] ++ after) := by
          simp [Segment.text, ih]
        _ = line.takeWhile (!isQuote ·) ++ quote :: rest := by
          rw [closing?_eq_append hclosing]
          simp
        _ = line := hline.symm

theorem infix_of_mem_partition {line : List Char} {s : Segment} (h : s ∈ partition line) :
    s.text <:+: line := by
  obtain ⟨left, right, hsplit⟩ := List.append_of_mem h
  refine ⟨Segment.join left, Segment.join right, ?_⟩
  rw [← join_partition line, hsplit]
  simp

theorem delimited_codeOf (s : List Char) : Delimited (codeOf s) := by
  rcases s with _ | ⟨c, s⟩
  · exact trivial
  · exact ⟨by simp, trivial⟩

theorem delimited_codeOf_append {s : List Char} {rest : List Segment}
    (hhead : ∀ s ∈ rest.head?, s.isCode = false) (h : Delimited rest) :
    Delimited (codeOf s ++ rest) := by
  rcases s with _ | ⟨c, s⟩
  · exact h
  · exact ⟨hhead, h⟩

theorem delimited_partition (line : List Char) : Delimited (partition line) := by
  fun_induction partition line with
  | case1 line hquote => exact delimited_codeOf line
  | case2 line quote rest hquote hclosing => exact delimited_codeOf line
  | case3 line quote rest hquote body after hclosing ih =>
      obtain ⟨hquoted, -⟩ := dropWhile_eq_cons hquote
      exact delimited_codeOf_append (by simp [Segment.isCode]) ⟨⟨quote, body, hquoted, rfl⟩, ih⟩

end SpanishLua.Proofs.Partition
