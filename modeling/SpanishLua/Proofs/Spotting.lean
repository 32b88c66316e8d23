import SpanishLua.Command.Failure
import SpanishLua.Proofs.Returns

namespace SpanishLua.Proofs.Spotting

open SpanishLua.Text
open SpanishLua.Command
open SpanishLua.Proofs.Sweep
open SpanishLua.Proofs.Occurrences
open SpanishLua.Proofs.Denial
open SpanishLua.Proofs.Returns

/-- `text` is the line less one carriage return at its end, if it ends in one. -/
def Shows (line text : List Char) : Prop :=
  line = text ++ ['\r'] ∨ text = line ∧ ∀ s, line ≠ s ++ ['\r']

/-- The text behind its first `n` characters starts with the word, case apart, and it does so behind
no fewer of them. -/
structure StartsFirst (word s : List Char) (n : Nat) : Prop where
  here : StandsAfter [] word (s.drop n)
  first : ∀ k < n, ¬ StandsAfter [] word (s.drop k)

section Columns

theorem dropBytes?_append (p s : List Char) : dropBytes? (byteLength p) (p ++ s) = some s := by
  induction p with
  | nil => rw [byteLength, List.nil_append, dropBytes?]
  | cons c p ih => rw [List.cons_append, byteLength, dropBytes?_cons, ih]

theorem columnOf_forbidden {e : ForbiddenWord} {p s : List Char} (h : e.column = byteLength p + 1) :
    columnOf (p ++ s) (.forbidden e) = p.length + 1 := by
  rw [columnOf, h, Nat.add_sub_cancel, dropBytes?_append]
  simp

theorem placeOf_eq {document line : List Char} {earlier later : List (List Char)}
    {e : DocumentError} (hlines : lines document = earlier ++ line :: later)
    (hnumber : e.lineNumber = earlier.length + 1) :
    placeOf document e =
      some ⟨e.lineNumber, columnOf (withoutReturn line) e, withoutReturn line⟩ := by
  have hline : (lines document)[e.lineNumber - 1]? = some line := by
    simp [hlines, hnumber]
  rw [placeOf, hline, Option.map_some]

theorem shows_withoutReturn (line : List Char) : Shows line (withoutReturn line) := by
  rw [withoutReturn]
  split
  · rename_i hlast
    obtain ⟨text, rfl⟩ := List.getLast?_eq_some_iff.mp (eq_of_beq hlast)
    exact .inl (by rw [List.dropLast_concat])
  · rename_i hlast
    refine .inr ⟨rfl, ?_⟩
    rintro s rfl
    simp at hlast

theorem standsAfter_take {word s : List Char} {k : Nat} (h : StandsAfter [] word (s.drop k)) :
    StandsAfter (s.take k) word s := by
  obtain ⟨piece, rest, hdrop, hpiece⟩ := h
  refine ⟨piece, rest, ?_, hpiece⟩
  rw [List.nil_append] at hdrop
  rw [List.append_assoc, ← hdrop, List.take_append_drop]

theorem startsFirst_of_standsAfter {word s pre : List Char} (h : StandsAfter pre word s)
    (hleast : ∀ pre', StandsAfter pre' word s → pre.length ≤ pre'.length) :
    StartsFirst word s pre.length := by
  constructor
  · obtain ⟨piece, rest, rfl, hpiece⟩ := h
    exact ⟨piece, rest, by simp, hpiece⟩
  · intro k hk hstands
    have hle := hleast _ (standsAfter_take hstands)
    rw [List.length_take] at hle
    omega

end Columns

section Shown

variable {line text : List Char} (h : Shows line text)
include h

theorem Shows.isPrefix : text <+: line := by
  rcases h with rfl | ⟨rfl, -⟩
  · exact List.prefix_append text ['\r']
  · exact List.prefix_rfl

theorem Shows.findFolded? {extra : List String} {w : String}
    (hw : w ∈ (DenyList.ofExtra extra).words) :
    Text.findFolded? w.toList line = Text.findFolded? w.toList text := by
  rcases h with rfl | ⟨rfl, -⟩
  · exact findFolded?_append_return hw text
  · rfl

/-- The first occurrence of a denied word in the line is in the line as it is shown. -/
theorem Shows.standsAfter {extra : List String} {w : String}
    (hw : w ∈ (DenyList.ofExtra extra).words) {pre : List Char}
    (hstands : StandsAfter pre w.toList line)
    (hleast : ∀ pre', StandsAfter pre' w.toList line → pre.length ≤ pre'.length) :
    StandsAfter pre w.toList text ∧
      ∀ pre', StandsAfter pre' w.toList text → pre.length ≤ pre'.length := by
  -- the search answers alike in both texts, and what it passes over is a prefix of the line in both
  have hfind := findFolded?_eq_some_iff.mpr ⟨pre, rfl, hstands, hleast⟩
  rw [h.findFolded? hw] at hfind
  obtain ⟨pre', hlength, hstands', hleast'⟩ := findFolded?_eq_some_iff.mp hfind
  obtain rfl : pre' = pre := by
    obtain ⟨piece, rest, hline, -⟩ := hstands
    obtain ⟨piece', rest', htext, -⟩ := id hstands'
    rw [List.append_assoc] at hline htext
    have hpre : pre <+: line := ⟨piece ++ rest, hline.symm⟩
    have hpre' : pre' <+: line := List.IsPrefix.trans ⟨piece' ++ rest', htext.symm⟩ h.isPrefix
    exact (List.prefix_of_prefix_length_le hpre' hpre hlength.le).eq_of_length hlength
  exact ⟨hstands', hleast'⟩

end Shown

/-- A failure for a denied word points into its line, at the first character of the first occurrence
of the word in the line as it is shown. -/
theorem failure_points_at_word {extra : List String} {document : List Char} {label : String}
    {e : ForbiddenWord} (h : (DenyList.ofExtra extra).check document label = .error e)
    (path : String) :
    ∃ earlier line later text column,
      lines document = earlier ++ line :: later ∧ e.line = earlier.length + 1 ∧ Shows line text ∧
      (Failure.ofDocument path document (.forbidden e)).place = some ⟨e.line, column + 1, text⟩ ∧
      StartsFirst e.token.toList text column := by
  obtain ⟨⟨earlier, line, later, hlines, -, hline, ⟨sooner, rest, hwords, -⟩, pre, hstands, hcolumn,
    hleast⟩, -⟩ := check_eq_error_iff.mp h
  have hshows := shows_withoutReturn line
  have htoken : e.token ∈ (DenyList.ofExtra extra).words := by simp [hwords]
  obtain ⟨hstands, hleast⟩ := hshows.standsAfter htoken hstands hleast
  refine ⟨earlier, line, later, withoutReturn line, pre.length, hlines, hline, hshows, ?_,
    startsFirst_of_standsAfter hstands hleast⟩
  have hplace : columnOf (withoutReturn line) (.forbidden e) = pre.length + 1 := by
    obtain ⟨piece, after, htext, -⟩ := hstands
    rw [htext, List.append_assoc]
    exact columnOf_forbidden hcolumn
  have hpoints := placeOf_eq (e := .forbidden e) hlines hline
  rw [hplace] at hpoints
  exact hpoints

theorem failure_points_at_package :
    let document := "x = 1\r\nñ = PAC\u212aAGE\r\n".toList
    let e : ForbiddenWord := ⟨"package", 2, 6, "guion"⟩
    let text := "ñ = PAC\u212aAGE".toList
    (DenyList.ofExtra ["debug "]).check document "guion" = .error e ∧
      (Failure.ofDocument "guion" document (.forbidden e)).place = some ⟨2, 5, text⟩ ∧
      StartsFirst e.token.toList text 4 := by
  intro document e text
  have hruns : (DenyList.ofExtra ["debug "]).check document "guion" = .error e ∧
      (Failure.ofDocument "guion" document (.forbidden e)).place = some ⟨2, 5, text⟩ := by
    decide +kernel
  obtain ⟨hcheck, hplace⟩ := hruns
  obtain ⟨-, -, -, text', column, -, -, -, hpoints, hfirst⟩ :=
    failure_points_at_word hcheck "guion"
  rw [hplace] at hpoints
  obtain ⟨-, hcolumn, htext⟩ := Place.mk.inj (Option.some.inj hpoints)
  obtain rfl : column = 4 := by omega
  rw [← htext] at hfirst
  exact ⟨hcheck, hplace, hfirst⟩

end SpanishLua.Proofs.Spotting
