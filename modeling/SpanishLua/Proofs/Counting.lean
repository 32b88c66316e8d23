import SpanishLua.Code.Arguments
import SpanishLua.Proofs.Edits

namespace SpanishLua.Proofs.Counting

open SpanishLua.Code
open SpanishLua.Text
open SpanishLua.Proofs.Characters
open SpanishLua.Proofs.Recognisers
open SpanishLua.Proofs.Places
open SpanishLua.Proofs.Edits

/-- Going over the text adds `n` to the depth and nothing to the commas counted. -/
def Lift (n : Nat) (s : List Char) : Prop :=
  ∀ depth rest, (scanArguments depth (s ++ rest)).2 = (scanArguments (depth + n) rest).2

/-- The depth behind a text that starts at `depth`, if it closes only what it opens and has no comma
outside of that. -/
def depthAfter? : (depth : Nat) → List Char → Option Nat
  | depth, [] => some depth
  | depth, c :: rest =>
      if isOpener c then depthAfter? (depth + 1) rest
      else if isCloser c then
        match depth with
        | 0 => none
        | depth + 1 => depthAfter? depth rest
      else if c = ',' ∧ depth = 0 then none
      else depthAfter? depth rest

theorem scanArguments_opener {c : Char} (hc : isOpener c = true) (depth : Nat) (s : List Char) :
    (scanArguments depth (c :: s)).2 = (scanArguments (depth + 1) s).2 := by
  cases depth <;> simp [scanArguments, hc]

theorem scanArguments_closer {c : Char} (hopener : isOpener c = false) (hc : isCloser c = true)
    (depth : Nat) (s : List Char) :
    (scanArguments depth (c :: s)).2 =
      match depth with
      | 0 => 0
      | depth + 1 => (scanArguments depth s).2 := by
  cases depth <;> simp [scanArguments, hopener, hc]

theorem scanArguments_other {c : Char} (hopener : isOpener c = false) (hcloser : isCloser c = false)
    (depth : Nat) (s : List Char) :
    (scanArguments depth (c :: s)).2 =
      if c == ',' && depth == 0 then (scanArguments depth s).2 + 1
      else (scanArguments depth s).2 := by
  cases depth <;> simp [scanArguments, hopener, hcloser]

theorem scanArguments_of_depthAfter? {s : List Char} {m n : Nat} (h : depthAfter? m s = some n)
    (depth : Nat) (rest : List Char) :
    (scanArguments (depth + m) (s ++ rest)).2 = (scanArguments (depth + n) rest).2 := by
  induction s generalizing m with
  | nil =>
      obtain rfl : m = n := by
        cases m <;> simpa [depthAfter?] using h
      rfl
  | cons c s ih =>
      rw [List.cons_append]
      cases hopener : isOpener c with
      | true =>
          have hs : depthAfter? (m + 1) s = some n := by
            cases m <;> simpa [depthAfter?, hopener] using h
          rw [scanArguments_opener hopener, Nat.add_assoc]
          exact ih hs
      | false =>
          cases hcloser : isCloser c with
          | true =>
              rw [scanArguments_closer hopener hcloser]
              cases m with
              | zero => simp [depthAfter?, hopener, hcloser] at h
              | succ m => exact ih (by simpa [depthAfter?, hopener, hcloser] using h)
          | false =>
              rw [scanArguments_other hopener hcloser]
              cases m with
              | zero =>
                  have hcomma : c ≠ ',' := by
                    rintro rfl
                    simp [depthAfter?, hopener, hcloser] at h
                  have hcount : (c == ',' && depth + 0 == 0) = false := by simp [hcomma]
                  rw [hcount, if_neg (by decide)]
                  exact ih (by simpa [depthAfter?, hopener, hcloser, hcomma] using h)
              | succ m =>
                  have hcount : (c == ',' && depth + (m + 1) == 0) = false := by simp
                  rw [hcount, if_neg (by decide)]
                  exact ih (by simpa [depthAfter?, hopener, hcloser] using h)

theorem lift_of_depthAfter? {s : List Char} {n : Nat} (h : depthAfter? 0 s = some n) : Lift n s :=
  scanArguments_of_depthAfter? h

theorem Lift.append {s t : List Char} {m n : Nat} (hs : Lift m s) (ht : Lift n t) :
    Lift (m + n) (s ++ t) := by
  intro depth rest
  rw [List.append_assoc, hs, ht, Nat.add_assoc]

theorem lift_paren : Lift 1 ['('] :=
  lift_of_depthAfter? rfl

theorem lift_zero {s : List Char}
    (h : ∀ c ∈ s, isOpener c = false ∧ isCloser c = false ∧ c ≠ ',') : Lift 0 s := by
  intro depth rest
  induction s with
  | nil => rfl
  | cons c s ih =>
      obtain ⟨hopener, hcloser, hcomma⟩ := h c (by simp)
      have hcount : (c == ',' && depth == 0) = false := by simp [hcomma]
      rw [List.cons_append, scanArguments_other hopener hcloser, hcount, if_neg (by decide)]
      exact ih fun d hd => h d (by simp [hd])

theorem plain_of_isWord {c : Char} (h : isWord c = true) :
    isOpener c = false ∧ isCloser c = false ∧ c ≠ ',' := by
  have hne : ∀ d : Char, isWord d = false → c ≠ d := by
    rintro d hd rfl
    rw [h] at hd
    exact absurd hd (by decide)
  simp [isOpener, isCloser, hne '(' (by decide), hne '[' (by decide), hne '\x7b' (by decide),
    hne ')' (by decide), hne ']' (by decide), hne '\x7d' (by decide), hne ',' (by decide)]

theorem plain_of_isBlank {c : Char} (h : isBlank c = true) :
    isOpener c = false ∧ isCloser c = false ∧ c ≠ ',' :=
  forall_blank (p := fun c => isOpener c = false ∧ isCloser c = false ∧ c ≠ ',')
    (by decide +kernel) h

theorem lift_word {s : List Char} (h : WordRun s) : Lift 0 s :=
  lift_zero fun c hc => plain_of_isWord (h.2 c hc)

/-- Edits that lift as much as what they take leave the commas of a call as they were. -/
theorem scanArguments_result {es : List Edit}
    (h : ∀ hit, .put hit ∈ es → ∃ n, Lift n hit.taken ∧ Lift n hit.text) (depth : Nat) :
    (scanArguments depth (result es)).2 = (scanArguments depth (source es)).2 := by
  induction es generalizing depth with
  | nil => rfl
  | cons e es ih =>
      have hes := ih fun hit hhit => h hit (by simp [hhit])
      cases e with
      | put hit =>
          obtain ⟨n, htaken, htext⟩ := h hit (by simp)
          rw [result_put, source_put, htaken, htext, hes]
      | keep c =>
          rw [result_keep, source_keep]
          cases hopener : isOpener c with
          | true => rw [scanArguments_opener hopener, scanArguments_opener hopener, hes]
          | false =>
              cases hcloser : isCloser c with
              | true =>
                  rw [scanArguments_closer hopener hcloser, scanArguments_closer hopener hcloser]
                  cases depth with
                  | zero => rfl
                  | succ depth => exact hes depth
              | false =>
                  rw [scanArguments_other hopener hcloser, scanArguments_other hopener hcloser, hes]

theorem countArguments_le_iff {s : List Char} {n : Nat} (hn : 0 < n) :
    (countArguments s).1 ≤ n ↔ (scanArguments 0 s).2 < n := by
  rw [countArguments]
  dsimp only
  split
  · rename_i h
    simp [h.1, hn]
  · exact Nat.succ_le_iff

end SpanishLua.Proofs.Counting
