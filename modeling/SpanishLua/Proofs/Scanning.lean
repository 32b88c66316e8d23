import Mathlib.Data.List.Basic
import Mathlib.Data.List.TakeWhile
import SpanishLua.Code.Scan

namespace SpanishLua.Proofs.Scanning

open SpanishLua.Code
open SpanishLua.Text

/-- A claim takes at least one character, from the place where it is made. -/
def Sound (find : Recogniser) : Prop :=
  ∀ before after hit, find before after = some hit → hit.taken ≠ [] ∧ hit.taken <+: after

/-- The steps of a scan as an induction principle, for whatever is computed along it. -/
theorem scan_induction {find : Recogniser} (hsound : Sound find)
    {motive : List Char → List Char → Prop}
    (nil : ∀ before, motive before [])
    (kept : ∀ before c rest, find before (c :: rest) = none →
      motive (c :: before) rest → motive before (c :: rest))
    (claimed : ∀ before hit rest, find before (hit.taken ++ rest) = some hit →
      motive (hit.taken.reverse ++ before) rest → motive before (hit.taken ++ rest))
    (before after : List Char) : motive before after := by
  induction hlength : after.length using Nat.strong_induction_on generalizing before after with
  | h n ih =>
      subst hlength
      rcases after with _ | ⟨c, rest⟩
      · exact nil before
      · cases hfind : find before (c :: rest) with
        | none => exact kept before c rest hfind (ih rest.length (by simp) _ rest rfl)
        | some hit =>
            obtain ⟨hne, tail, htail⟩ := hsound before (c :: rest) hit hfind
            have hpos : 0 < hit.taken.length := List.length_pos_iff.mpr hne
            rw [← htail] at hfind ⊢
            refine claimed before hit tail hfind (ih tail.length ?_ _ tail rfl)
            have hsum := congrArg List.length htail
            simp only [List.length_append] at hsum
            omega

theorem replaceFrom_nil (find : Recogniser) (before : List Char) :
    replaceFrom find before [] = [] := by
  rw [replaceFrom]

theorem replaceFrom_kept {find : Recogniser} {before rest : List Char} {c : Char}
    (h : find before (c :: rest) = none) :
    replaceFrom find before (c :: rest) = c :: replaceFrom find (c :: before) rest := by
  rw [replaceFrom, h]

theorem replaceFrom_claimed {find : Recogniser} (hsound : Sound find)
    {before rest : List Char} {hit : Hit} (h : find before (hit.taken ++ rest) = some hit) :
    replaceFrom find before (hit.taken ++ rest) =
      hit.text ++ replaceFrom find (hit.taken.reverse ++ before) rest := by
  have hne := (hsound _ _ _ h).1
  rcases hit with ⟨taken, text⟩
  obtain ⟨c, tail, rfl⟩ := List.exists_cons_of_ne_nil hne
  simp only [List.cons_append] at h ⊢
  rw [replaceFrom, h]
  simp

theorem claimsFrom_nil (find : Recogniser) (before : List Char) :
    claimsFrom find before [] = [] := by
  rw [claimsFrom]

theorem claimsFrom_kept {find : Recogniser} {before rest : List Char} {c : Char}
    (h : find before (c :: rest) = none) :
    claimsFrom find before (c :: rest) = claimsFrom find (c :: before) rest := by
  rw [claimsFrom, h]

theorem claimsFrom_claimed {find : Recogniser} (hsound : Sound find)
    {before rest : List Char} {hit : Hit} (h : find before (hit.taken ++ rest) = some hit) :
    claimsFrom find before (hit.taken ++ rest) =
      (hit, rest) :: claimsFrom find (hit.taken.reverse ++ before) rest := by
  have hne := (hsound _ _ _ h).1
  rcases hit with ⟨taken, text⟩
  obtain ⟨c, tail, rfl⟩ := List.exists_cons_of_ne_nil hne
  simp only [List.cons_append] at h ⊢
  rw [claimsFrom, h]
  simp

theorem exists_of_mem_claimsFrom {find : Recogniser} (hsound : Sound find)
    {before after rest : List Char} {hit : Hit} (h : (hit, rest) ∈ claimsFrom find before after) :
    ∃ pre, after = pre ++ (hit.taken ++ rest) ∧
      find (pre.reverse ++ before) (hit.taken ++ rest) = some hit := by
  induction before, after using scan_induction hsound with
  | nil before => simp [claimsFrom_nil] at h
  | kept before c tail hfind ih =>
      rw [claimsFrom_kept hfind] at h
      obtain ⟨pre, rfl, hclaim⟩ := ih h
      exact ⟨c :: pre, rfl, by simpa using hclaim⟩
  | claimed before hit' tail hfind ih =>
      rw [claimsFrom_claimed hsound hfind] at h
      rcases List.mem_cons.mp h with heq | h
      · obtain ⟨rfl, rfl⟩ := Prod.mk.inj heq
        exact ⟨[], rfl, hfind⟩
      · obtain ⟨pre, rfl, hclaim⟩ := ih h
        exact ⟨hit'.taken ++ pre, by simp, by simpa using hclaim⟩

/-- What can be claimed at a place is claimed there, unless an earlier claim takes the place. -/
theorem mem_claimsFrom_or_exists {find : Recogniser} (hsound : Sound find)
    {before pre rest : List Char} {hit : Hit}
    (h : find (pre.reverse ++ before) (hit.taken ++ rest) = some hit) :
    (hit, rest) ∈ claimsFrom find before (pre ++ (hit.taken ++ rest)) ∨
      ∃ left inner hit', pre = left ++ inner ∧ inner ≠ [] ∧
        find (left.reverse ++ before) (inner ++ (hit.taken ++ rest)) = some hit' ∧
        inner.length < hit'.taken.length := by
  obtain ⟨after, hafter⟩ : ∃ after, after = pre ++ (hit.taken ++ rest) := ⟨_, rfl⟩
  rw [← hafter]
  induction before, after using scan_induction hsound generalizing pre with
  | nil before =>
      have hne := (hsound _ _ _ h).1
      simp [hne] at hafter
  | kept before c tail hfind ih =>
      rcases pre with _ | ⟨d, pre⟩
      · change find before (hit.taken ++ rest) = some hit at h
        rw [hafter, List.nil_append, h] at hfind
        simp at hfind
      · obtain ⟨rfl, rfl⟩ := List.cons.inj hafter
        rw [claimsFrom_kept hfind]
        rcases ih (by simpa using h) rfl with hmem | ⟨left, inner, hit', rfl, hclaim⟩
        · exact .inl hmem
        · exact .inr ⟨c :: left, inner, hit', rfl, by simpa using hclaim⟩
  | claimed before hit' tail hfind ih =>
      rw [claimsFrom_claimed hsound hfind]
      by_cases hpre : pre = []
      · subst hpre
        change find before (hit.taken ++ rest) = some hit at h
        rw [hafter, List.nil_append, h] at hfind
        obtain rfl := Option.some.inj hfind
        obtain rfl := List.append_cancel_left hafter
        exact .inl List.mem_cons_self
      · by_cases hlength : pre.length < hit'.taken.length
        · rw [hafter] at hfind
          exact .inr ⟨[], pre, hit', rfl, hpre, hfind, hlength⟩
        · have hprefix : pre <+: hit'.taken ++ tail := by
            rw [hafter]
            exact List.prefix_append _ _
          obtain ⟨pre', rfl⟩ := List.prefix_of_prefix_length_le (List.prefix_append hit'.taken tail)
            hprefix (by omega)
          obtain rfl : tail = pre' ++ (hit.taken ++ rest) := by simpa using hafter
          rcases ih (by simpa using h) rfl with hmem | ⟨left, inner, hit'', rfl, hclaim⟩
          · exact .inl (List.mem_cons_of_mem _ hmem)
          · exact .inr ⟨hit'.taken ++ left, inner, hit'', by simp, by simpa using hclaim⟩

theorem pairwise_claimsFrom {find : Recogniser} (hsound : Sound find) (before after : List Char) :
    (claimsFrom find before after).Pairwise fun a b => b.1.taken ++ b.2 <:+ a.2 := by
  induction before, after using scan_induction hsound with
  | nil before =>
      rw [claimsFrom_nil]
      exact .nil
  | kept before c rest hfind ih =>
      rw [claimsFrom_kept hfind]
      exact ih
  | claimed before hit rest hfind ih =>
      rw [claimsFrom_claimed hsound hfind]
      refine .cons (fun later hlater => ?_) ih
      obtain ⟨pre, hrest, -⟩ := exists_of_mem_claimsFrom hsound hlater
      exact ⟨pre, hrest.symm⟩

theorem isPrefixOf?_eq_some_iff {α : Type} [BEq α] [LawfulBEq α] {word s rest : List α} :
    word.isPrefixOf? s = some rest ↔ s = word ++ rest := by
  induction word generalizing s with
  | nil => exact Option.some_inj
  | cons c word ih =>
      rcases s with _ | ⟨d, s⟩
      · change none = some rest ↔ [] = c :: word ++ rest
        simp
      · change (if c == d then word.isPrefixOf? s else none) = some rest ↔
          d :: s = c :: (word ++ rest)
        by_cases hcd : c = d
        · subst hcd
          simp [ih]
        · simp [hcd, Ne.symm hcd]

theorem findSome?_congr {α β : Type} {f g : α → Option β} {l : List α} (h : ∀ x ∈ l, f x = g x) :
    l.findSome? f = l.findSome? g := by
  rw [← List.head?_filterMap, List.filterMap_congr h, List.head?_filterMap]

theorem exists_of_firstWord? {α : Type} {words : List (List Char)} {after : List Char}
    {accept : List Char → List Char → Option α} {a : α}
    (h : firstWord? words after accept = some a) :
    ∃ word ∈ words, ∃ rest, after = word ++ rest ∧ accept word rest = some a := by
  obtain ⟨word, hword, hbind⟩ := List.exists_of_findSome?_eq_some h
  obtain ⟨rest, hprefix, haccept⟩ := Option.bind_eq_some_iff.mp hbind
  exact ⟨word, hword, rest, isPrefixOf?_eq_some_iff.mp hprefix, haccept⟩

theorem opening?_eq_some_iff {s paren rest : List Char} :
    opening? s = some (paren, rest) ↔
      ∃ gap, (∀ c ∈ gap, isBlank c = true) ∧ paren = gap ++ ['('] ∧ s = gap ++ '(' :: rest := by
  constructor
  · intro h
    rw [opening?] at h
    split at h
    · rename_i tail hdrop
      simp only [Option.some.injEq, Prod.mk.injEq] at h
      obtain ⟨rfl, rfl⟩ := h
      refine ⟨s.takeWhile isBlank, fun c hc => List.mem_takeWhile_imp hc, rfl, ?_⟩
      rw [← hdrop, List.takeWhile_append_dropWhile]
    · simp at h
  · rintro ⟨gap, hgap, rfl, rfl⟩
    have hparen : isBlank '(' = false := by decide
    rw [opening?, List.dropWhile_append_of_pos hgap, List.takeWhile_append_of_pos hgap]
    simp [hparen]

theorem stemOf?_eq_some_iff {ending run stem : List Char} :
    stemOf? ending run = some stem ↔ stem ≠ [] ∧ run = stem ++ ending := by
  have hreverse : ∀ tail : List Char,
      ending.reverse.isPrefixOf? run.reverse = some tail ↔ run = tail.reverse ++ ending := by
    intro tail
    rw [isPrefixOf?_eq_some_iff, ← List.reverse_inj]
    simp
  constructor
  · intro h
    rw [stemOf?] at h
    split at h
    · rename_i c tail htail
      obtain rfl := Option.some.inj h
      exact ⟨by simp, (hreverse _).mp htail⟩
    · simp at h
  · rintro ⟨hne, hrun⟩
    have htail := (hreverse stem.reverse).mpr (by simpa using hrun)
    obtain ⟨c, tail, hstem⟩ := List.exists_cons_of_ne_nil
      (fun hnil => hne (List.reverse_eq_nil_iff.mp hnil))
    rw [stemOf?, htail, hstem]
    simp [← hstem]

end SpanishLua.Proofs.Scanning
