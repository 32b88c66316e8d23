import Mathlib.Data.List.Forall2
import SpanishLua.Proofs.Sweep
import SpanishLua.Proofs.Tables

namespace SpanishLua.Proofs.Lines

open SpanishLua.Code
open SpanishLua.Text
open SpanishLua.Proofs.Characters
open SpanishLua.Proofs.Sweep
open SpanishLua.Proofs.Tables

/-- A code segment after all passes, which blank code does not go through. -/
def rewriteCode (lexicon : Lexicon) (code : List Char) : Except ArityError (List Char) :=
  if (trim code).isEmpty then .ok code else Pass.applyAll lexicon code

/-- A segment becomes another one: code goes through the passes, a literal stays as it is. -/
def Rewritten (lexicon : Lexicon) : Segment → Segment → Prop
  | .code code, .code lua => rewriteCode lexicon code = .ok lua
  | .literal text, .literal text' => text' = text
  | _, _ => False

/-- The first failure of the passes on the code segments, literals left out. -/
def firstFailure? (lexicon : Lexicon) : List (Option (List Char)) → Option ArityError
  | [] => none
  | none :: rest => firstFailure? lexicon rest
  | some code :: rest =>
      match rewriteCode lexicon code with
      | .error e => some e
      | .ok _ => firstFailure? lexicon rest

theorem ofTable_eq_ok {rules : RuleTable} {extra : List String} {t : Translator}
    (h : Translator.ofTable rules extra = .ok t) :
    WellFormed rules ∧ t.denyList = .ofExtra extra ∧ t.lexicon = .ofTable rules := by
  rw [Translator.ofTable] at h
  split at h
  · simp at h
  · rename_i hfault
    obtain rfl := Except.ok.inj h
    exact ⟨fault?_eq_none_iff.mp hfault, rfl, rfl⟩

theorem exists_ofTable {rules : RuleTable} (h : WellFormed rules) (extra : List String) :
    ∃ t, Translator.ofTable rules extra = .ok t := by
  rw [Translator.ofTable, fault?_eq_none_iff.mpr h]
  exact ⟨_, rfl⟩

theorem translateCode_code (lexicon : Lexicon) (code : List Char) (rest : List Segment) :
    translateCode lexicon (.code code :: rest) =
      match rewriteCode lexicon code with
      | .error e => (.code code :: rest, some e)
      | .ok lua =>
          (.code lua :: (translateCode lexicon rest).1, (translateCode lexicon rest).2) := by
  rw [translateCode, rewriteCode]
  split <;> rfl

theorem translateCode_literal (lexicon : Lexicon) (text : List Char) (rest : List Segment) :
    translateCode lexicon (.literal text :: rest) =
      (.literal text :: (translateCode lexicon rest).1, (translateCode lexicon rest).2) := by
  rw [translateCode]

theorem translateCode_failure (lexicon : Lexicon) (segments : List Segment) :
    (translateCode lexicon segments).2 = firstFailure? lexicon (segments.map codeText?) := by
  induction segments with
  | nil => rfl
  | cons s rest ih =>
      cases s with
      | literal text => rw [translateCode_literal, ih, List.map_cons, codeText?, firstFailure?]
      | code code =>
          rw [translateCode_code, List.map_cons, codeText?, firstFailure?]
          cases rewriteCode lexicon code with
          | error e => rfl
          | ok lua => exact ih

theorem translateCode_rewritten {lexicon : Lexicon} {segments : List Segment}
    (h : (translateCode lexicon segments).2 = none) :
    List.Forall₂ (Rewritten lexicon) segments (translateCode lexicon segments).1 := by
  induction segments with
  | nil => exact .nil
  | cons s rest ih =>
      cases s with
      | literal text =>
          rw [translateCode_literal] at h ⊢
          exact .cons rfl (ih h)
      | code code =>
          rw [translateCode_code] at h ⊢
          cases hcode : rewriteCode lexicon code with
          | error e => simp [hcode] at h
          | ok lua =>
              rw [hcode] at h
              exact .cons hcode (ih h)

theorem trim_eq_nil {s : List Char} (h : trim s = []) : ∀ c ∈ s, isBlank c = true := by
  have hstart : ∀ c ∈ trimStart s, isBlank c = true := by
    rw [trim, trimEnd, dropTrailing, List.reverse_eq_nil_iff, List.dropWhile_eq_nil_iff] at h
    exact fun c hc => h c (List.mem_reverse.mpr hc)
  rw [trimStart] at hstart
  have hstop := List.head?_dropWhile_not isBlank s
  cases hdrop : s.dropWhile isBlank with
  | nil => exact List.dropWhile_eq_nil_iff.mp hdrop
  | cons c rest =>
      rw [hdrop] at hstart hstop
      simp [hstart c (by simp)] at hstop

theorem isQuote_of_isBlank {c : Char} (h : isBlank c = true) : isQuote c = false :=
  forall_blank (p := fun c => isQuote c = false) (by decide +kernel) h

theorem partition_of_blank {line : List Char} (h : ∀ c ∈ line, isBlank c = true) :
    partition line = codeOf line := by
  have hdrop : line.dropWhile (!isQuote ·) = [] := by
    rw [List.dropWhile_eq_nil_iff]
    exact fun c hc => by simp [isQuote_of_isBlank (h c hc)]
  rw [partition]
  split
  · rfl
  · rename_i hcons
    rw [hdrop] at hcons
    simp at hcons

/-- Passing over blank lines makes no difference. -/
theorem translateLine_eq (t : Translator) (line : List Char) :
    t.translateLine line =
      match (translateSegments t.lexicon (partition line)).2 with
      | some e => .error e
      | none => .ok (Segment.join (translateSegments t.lexicon (partition line)).1) := by
  rw [Translator.translateLine]
  split
  · rename_i hblank
    have hempty : trim line = [] := by simpa using hblank
    rw [partition_of_blank (trim_eq_nil hempty)]
    rcases line with _ | ⟨c, line⟩
    · rfl
    · have hcode : translateSegments t.lexicon (codeOf (c :: line)) =
          ([.code (c :: line)], none) := by
        simp [codeOf, translateSegments, Service.nameAll, Service.nameAfter, translateCode, hempty]
      rw [hcode]
      simp [Segment.text]
  · cases translateSegments t.lexicon (partition line) with
    | mk segments failure => cases failure <;> rfl

theorem translateLine_eq_error_iff {t : Translator} {line : List Char} {e : ArityError} :
    t.translateLine line = .error e ↔
      firstFailure? t.lexicon ((partition line).map codeText?) = some e := by
  rw [translateLine_eq, translateSegments, translateCode_failure, nameAll_eq_nameEach,
    map_codeText?_nameEach]
  cases firstFailure? t.lexicon ((partition line).map codeText?) <;> simp

theorem rewritten_of_translateLine {t : Translator} {line lua : List Char}
    (h : t.translateLine line = .ok lua) :
    ∃ out, List.Forall₂ (Rewritten t.lexicon)
        (nameEach t.lexicon.services none (partition line)) out ∧ lua = Segment.join out := by
  rw [translateLine_eq] at h
  split at h
  · simp at h
  · rename_i hnone
    rw [translateSegments, nameAll_eq_nameEach] at hnone h
    obtain rfl := Except.ok.inj h
    exact ⟨_, translateCode_rewritten hnone, rfl⟩

end SpanishLua.Proofs.Lines
