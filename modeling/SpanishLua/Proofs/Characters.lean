import Mathlib.Data.List.Basic
import SpanishLua.Text.Blank
import SpanishLua.Text.Fold
import SpanishLua.Text.Identifier
import SpanishLua.Text.Lowercase
import SpanishLua.Text.Word

namespace SpanishLua.Proofs.Characters

open SpanishLua.Text

/-- A property of ASCII characters is checked at the 128 code points. -/
theorem forall_ascii {p : Char → Prop} (h : ∀ n < 128, p (Char.ofNat n)) {c : Char}
    (hc : c.toNat < 128) : p c := by
  simpa using h c.toNat hc

theorem isWord_of_continuesIdentifier {c : Char} (hascii : c.toNat < 128)
    (h : continuesIdentifier c = true) : isWord c = true :=
  forall_ascii (p := fun c => continuesIdentifier c = true → isWord c = true)
    (by decide +kernel) hascii h

theorem continuesIdentifier_of_starts {c : Char} (h : startsIdentifier c = true) :
    continuesIdentifier c = true := by
  simp [continuesIdentifier, h]

theorem exists_of_covers {ranges : Ranges} {n : Nat} (h : ranges.covers n = true) :
    ∃ range ∈ ranges, range.1 ≤ n ∧ n ≤ range.2 := by
  induction ranges with
  | nil => simp [Ranges.covers] at h
  | cons range ranges ih =>
      rcases range with ⟨lo, hi⟩
      rw [Ranges.covers] at h
      split at h
      · simp at h
      · rename_i hlo
        rcases Bool.or_eq_true_iff.mp h with hhi | hrest
        · exact ⟨(lo, hi), by simp, by omega, by simpa using hhi⟩
        · obtain ⟨range, hmem, hrange⟩ := ih hrest
          exact ⟨range, by simp [hmem], hrange⟩

theorem forall_blank {p : Char → Prop} (h : ∀ range ∈ blanks,
    ∀ n ∈ List.range' range.1 (range.2 + 1 - range.1), p (Char.ofNat n)) {c : Char}
    (hc : isBlank c = true) : p c := by
  obtain ⟨range, hmem, hlo, hhi⟩ := exists_of_covers hc
  simpa using h range hmem c.toNat (List.mem_range'_1.mpr ⟨hlo, by omega⟩)

theorem isWord_of_isBlank {c : Char} (h : isBlank c = true) : isWord c = false :=
  forall_blank (p := fun c => isWord c = false) (by decide +kernel) h

theorem mapCase_cases (runs : List CaseRun) (n : Nat) :
    mapCase runs n = n ∨
      ∃ r ∈ runs, r.first ≤ n ∧ n ≤ r.last ∧ mapCase runs n = (n + r.shift).toNat := by
  induction runs with
  | nil => exact .inl rfl
  | cons r runs ih =>
      rw [mapCase]
      split
      · exact .inl rfl
      · split
        · rename_i hcovers
          simp only [CaseRun.covers, Bool.and_eq_true, decide_eq_true_eq] at hcovers
          exact .inr ⟨r, by simp, hcovers.1.1, hcovers.1.2, rfl⟩
        · rcases ih with hsame | ⟨r', hmem, hrange⟩
          · exact .inl hsame
          · exact .inr ⟨r', by simp [hmem], hrange⟩

theorem toNat_ofNat_of_ne_zero {n : Nat} (h : (Char.ofNat n).toNat ≠ 0) :
    (Char.ofNat n).toNat = n := by
  by_cases hvalid : n.isValidChar
  · have hchar : Char.ofNat n = Char.ofNatAux n hvalid := dif_pos hvalid
    rw [hchar]
    rfl
  · have hchar : Char.ofNat n = Char.ofNat 0 := dif_neg hvalid
    rw [hchar] at h
    exact absurd rfl h

theorem isWord_of_fold {c : Char} (hlow : 97 ≤ (fold c).toNat) (hhigh : (fold c).toNat ≤ 122) :
    isWord c = true := by
  have hmap : (fold c).toNat = mapCase foldRuns c.toNat :=
    toNat_ofNat_of_ne_zero (by rw [fold] at hlow; omega)
  rw [hmap] at hlow hhigh
  have hletters : c.toNat < 128 → 65 ≤ c.toNat ∧ c.toNat ≤ 90 ∨ 97 ≤ c.toNat ∧ c.toNat ≤ 122 →
      isWord c = true :=
    forall_ascii (p := fun c => 65 ≤ c.toNat ∧ c.toNat ≤ 90 ∨ 97 ≤ c.toNat ∧ c.toNat ≤ 122 →
      isWord c = true) (by decide +kernel)
  rcases mapCase_cases foldRuns c.toNat with hsame | ⟨r, hr, hfirst, hlast, hmoved⟩
  · rw [hsame] at hlow hhigh
    exact hletters (by omega) (.inr ⟨hlow, hhigh⟩)
  · have hruns : ∀ r ∈ foldRuns, r.last + r.shift < 97 ∨ 122 < r.first + r.shift ∨
        (65 ≤ r.first ∧ r.last ≤ 90) ∨
        (r.first = r.last ∧ isWord (Char.ofNat r.first) = true) := by
      decide +kernel
    rw [hmoved] at hlow hhigh
    rcases hruns r hr with hbelow | habove | ⟨hlower, hupper⟩ | ⟨hsingle, hword⟩
    · omega
    · omega
    · exact hletters (by omega) (.inl ⟨by omega, by omega⟩)
    · have hcode : r.first = c.toNat := by omega
      rwa [hcode, Char.ofNat_toNat] at hword

theorem lowercaseAt_ascii {before after : List Char} {c : Char} (hc : c.toNat < 128) :
    ∀ d ∈ lowercaseAt before c after, d.toNat < 128 := by
  have hmap : (Char.ofNat (mapCase lowercaseRuns c.toNat)).toNat < 128 :=
    forall_ascii (p := fun c => (Char.ofNat (mapCase lowercaseRuns c.toNat)).toNat < 128)
      (by decide +kernel) hc
  have hsigma : c.toNat ≠ 0x3A3 := by omega
  have hdotted : c.toNat ≠ 0x130 := by omega
  simpa [lowercaseAt, hsigma, hdotted] using hmap

theorem lowercaseAfter_ascii {s : List Char} (h : ∀ c ∈ s, c.toNat < 128) (before : List Char) :
    ∀ d ∈ lowercaseAfter before s, d.toNat < 128 := by
  induction s generalizing before with
  | nil => simp [lowercaseAfter]
  | cons c s ih =>
      intro d hd
      rw [lowercaseAfter, List.mem_append] at hd
      rcases hd with hd | hd
      · exact lowercaseAt_ascii (h c (by simp)) d hd
      · exact ih (fun c hc => h c (by simp [hc])) _ d hd

/-- Of the characters outside ASCII, only the Kelvin sign has a lower case in it. -/
theorem ascii_or_kelvin_of_lowercaseAt {before after : List Char} {c : Char}
    (h : ∀ d ∈ lowercaseAt before c after, d.toNat < 128) :
    c.toNat < 128 ∨ c.toNat = 0x212A := by
  rw [lowercaseAt] at h
  split at h
  · have hfinal : (Char.ofNat 0x3C2).toNat = 0x3C2 := by decide
    have hmedial : (Char.ofNat 0x3C3).toNat = 0x3C3 := by decide
    have hsigma := h _ (List.mem_singleton.mpr rfl)
    split at hsigma <;> omega
  · split at h
    · have hdot := h (Char.ofNat 0x307) (by simp)
      exact absurd hdot (by decide)
    · have himage := h _ (List.mem_singleton.mpr rfl)
      rcases mapCase_cases lowercaseRuns c.toNat with hsame | ⟨r, hr, hfirst, hlast, hmoved⟩
      · rw [hsame, Char.ofNat_toNat] at himage
        exact .inl himage
      · have hruns : ∀ r ∈ lowercaseRuns, r.last < 128 ∨ r.first = 0x212A ∧ r.last = 0x212A ∨
            128 ≤ r.first + r.shift ∧
              (r.last + r.shift < 0xD800 ∨
                0xDFFF < r.first + r.shift ∧ r.last + r.shift < 0x110000) := by
          decide +kernel
        rcases hruns r hr with hlow | ⟨hkelvin, hkelvin'⟩ | ⟨hhigh, hvalid⟩
        · omega
        · omega
        · have hchar : (mapCase lowercaseRuns c.toNat).isValidChar := by
            rw [hmoved, Nat.isValidChar]
            omega
          have hcode : (Char.ofNat (mapCase lowercaseRuns c.toNat)).toNat =
              mapCase lowercaseRuns c.toNat := by
            rw [Char.ofNat, dif_pos hchar]
            rfl
          omega

theorem ascii_or_kelvin_of_lowercaseAfter {s before : List Char}
    (h : ∀ d ∈ lowercaseAfter before s, d.toNat < 128) :
    ∀ c ∈ s, c.toNat < 128 ∨ c.toNat = 0x212A := by
  induction s generalizing before with
  | nil => simp
  | cons c s ih =>
      rw [lowercaseAfter] at h
      intro d hd
      rcases List.mem_cons.mp hd with rfl | hd
      · exact ascii_or_kelvin_of_lowercaseAt fun e he => h e (List.mem_append_left _ he)
      · exact ih (fun e he => h e (List.mem_append_right _ he)) d hd

theorem ascii_or_kelvin_of_lowercase_eq {s t : List Char} (h : lowercase s = lowercase t)
    (ht : ∀ c ∈ t, c.toNat < 128) : ∀ c ∈ s, c.toNat < 128 ∨ c.toNat = 0x212A := by
  have hlower : ∀ d ∈ lowercaseAfter [] s, d.toNat < 128 := by
    change ∀ d ∈ lowercase s, d.toNat < 128
    rw [h]
    exact lowercaseAfter_ascii ht []
  exact ascii_or_kelvin_of_lowercaseAfter hlower

end SpanishLua.Proofs.Characters
