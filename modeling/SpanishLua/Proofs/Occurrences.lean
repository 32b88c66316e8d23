import Mathlib.Data.List.Basic
import SpanishLua.Text.Fold

namespace SpanishLua.Proofs.Occurrences

open SpanishLua.Text

/-- `word` stands in `s` right after `pre`, case apart. -/
def StandsAfter (pre word s : List Char) : Prop :=
  ∃ piece rest, s = pre ++ piece ++ rest ∧ piece.map fold = word.map fold

/-- `word` stands somewhere in `s`, case apart. -/
def Occurs (word s : List Char) : Prop :=
  ∃ pre, StandsAfter pre word s

theorem startsFolded_iff {word s : List Char} :
    startsFolded word s = true ↔ StandsAfter [] word s := by
  induction word generalizing s with
  | nil =>
      simp only [startsFolded, true_iff]
      exact ⟨[], s, by simp, rfl⟩
  | cons a word ih =>
      rcases s with _ | ⟨b, s⟩
      · simp only [startsFolded, Bool.false_eq_true, false_iff]
        rintro ⟨piece, rest, hs, hpiece⟩
        obtain rfl : piece = [] := by simpa using (List.append_eq_nil_iff.mp hs.symm).1
        simp at hpiece
      · simp only [startsFolded, Bool.and_eq_true, beq_iff_eq, ih]
        constructor
        · rintro ⟨hfold, piece, rest, rfl, hpiece⟩
          exact ⟨b :: piece, rest, by simp, by simp [hfold, hpiece]⟩
        · rintro ⟨piece, rest, hs, hpiece⟩
          rcases piece with _ | ⟨c, piece⟩
          · simp at hpiece
          · simp only [List.nil_append, List.cons_append, List.cons.injEq, List.map_cons]
              at hs hpiece
            obtain ⟨rfl, rfl⟩ := hs
            exact ⟨hpiece.1.symm, piece, rest, by simp, hpiece.2⟩

theorem standsAfter_cons_iff {pre word s : List Char} {c : Char} :
    StandsAfter pre word (c :: s) ↔
      pre = [] ∧ StandsAfter [] word (c :: s) ∨
        ∃ pre', pre = c :: pre' ∧ StandsAfter pre' word s := by
  rcases pre with _ | ⟨d, pre⟩
  · simp
  · simp only [reduceCtorEq, false_and, List.cons.injEq, false_or,
      StandsAfter, List.cons_append]
    constructor
    · rintro ⟨piece, rest, ⟨rfl, rfl⟩, hpiece⟩
      exact ⟨pre, ⟨rfl, rfl⟩, piece, rest, rfl, hpiece⟩
    · rintro ⟨pre', ⟨rfl, rfl⟩, piece, rest, rfl, hpiece⟩
      exact ⟨piece, rest, ⟨rfl, rfl⟩, hpiece⟩

theorem standsAfter_nil_iff {pre word : List Char} :
    StandsAfter pre word [] ↔ pre = [] ∧ word = [] := by
  constructor
  · rintro ⟨piece, rest, hnil, hpiece⟩
    obtain ⟨hpre, -⟩ := List.append_eq_nil_iff.mp hnil.symm
    obtain ⟨rfl, rfl⟩ := List.append_eq_nil_iff.mp hpre
    exact ⟨rfl, by simpa using hpiece.symm⟩
  · rintro ⟨rfl, rfl⟩
    exact ⟨[], [], rfl, rfl⟩

theorem findFolded?_eq_some_iff {word s : List Char} {n : Nat} :
    findFolded? word s = some n ↔
      ∃ pre, pre.length = n ∧ StandsAfter pre word s ∧
        ∀ pre', StandsAfter pre' word s → n ≤ pre'.length := by
  induction s generalizing n with
  | nil =>
      rcases word with _ | ⟨a, word⟩ <;> simp [findFolded?, standsAfter_nil_iff]
      omega
  | cons c s ih =>
      rw [findFolded?]
      by_cases hstart : startsFolded word (c :: s) = true
      · have hhere := startsFolded_iff.mp hstart
        simp only [hstart, ↓reduceIte, Option.some.injEq]
        constructor
        · rintro rfl
          exact ⟨[], rfl, hhere, by simp⟩
        · rintro ⟨pre, rfl, -, hleast⟩
          have hzero : pre.length ≤ 0 := hleast [] hhere
          omega
      · have hnot : ¬ StandsAfter [] word (c :: s) := fun h => hstart (startsFolded_iff.mpr h)
        simp only [hstart, Bool.false_eq_true, ↓reduceIte, Option.map_eq_some_iff, ih,
          standsAfter_cons_iff, hnot, and_false, false_or]
        constructor
        · rintro ⟨m, ⟨pre, rfl, hpre, hleast⟩, rfl⟩
          refine ⟨c :: pre, rfl, ⟨pre, rfl, hpre⟩, ?_⟩
          rintro _ ⟨pre', rfl, hpre'⟩
          simpa using hleast pre' hpre'
        · rintro ⟨_, rfl, ⟨pre, rfl, hpre⟩, hleast⟩
          refine ⟨pre.length, ⟨pre, rfl, hpre, fun pre' hpre' => ?_⟩, rfl⟩
          simpa using hleast (c :: pre') ⟨pre', rfl, hpre'⟩

theorem findFolded?_eq_none_iff {word s : List Char} :
    findFolded? word s = none ↔ ¬ Occurs word s := by
  induction s with
  | nil =>
      rcases word with _ | ⟨a, word⟩ <;> simp [findFolded?, Occurs, standsAfter_nil_iff]
  | cons c s ih =>
      rw [findFolded?]
      by_cases hstart : startsFolded word (c :: s) = true
      · simp only [hstart, ↓reduceIte, reduceCtorEq, false_iff, not_not]
        exact ⟨[], startsFolded_iff.mp hstart⟩
      · have hnot : ¬ StandsAfter [] word (c :: s) := fun h => hstart (startsFolded_iff.mpr h)
        simp only [hstart, Bool.false_eq_true, ↓reduceIte, Option.map_eq_none_iff, ih, Occurs,
          standsAfter_cons_iff, hnot, and_false, false_or]
        constructor
        · rintro hnone ⟨_, pre, rfl, hpre⟩
          exact hnone ⟨pre, hpre⟩
        · rintro hnone ⟨pre, hpre⟩
          exact hnone ⟨c :: pre, pre, rfl, hpre⟩

instance (word s : List Char) : Decidable (Occurs word s) :=
  decidable_of_iff (findFolded? word s ≠ none) (by rw [ne_eq, findFolded?_eq_none_iff, not_not])

theorem occurs_iff_exists_piece {word s : List Char} :
    Occurs word s ↔ ∃ piece, piece <:+: s ∧ piece.map fold = word.map fold := by
  constructor
  · rintro ⟨pre, piece, rest, rfl, hpiece⟩
    exact ⟨piece, List.infix_append pre piece rest, hpiece⟩
  · rintro ⟨piece, ⟨pre, rest, rfl⟩, hpiece⟩
    exact ⟨pre, piece, rest, rfl, hpiece⟩

theorem Occurs.of_infix {word s t : List Char} (h : Occurs word s) (hst : s <:+: t) :
    Occurs word t := by
  obtain ⟨piece, hinfix, hpiece⟩ := occurs_iff_exists_piece.mp h
  exact occurs_iff_exists_piece.mpr ⟨piece, hinfix.trans hst, hpiece⟩

theorem occurs_congr {word word' s : List Char} (h : word.map fold = word'.map fold) :
    Occurs word s ↔ Occurs word' s := by
  simp only [Occurs, StandsAfter, h]

end SpanishLua.Proofs.Occurrences
