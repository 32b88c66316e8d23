import SpanishLua.Proofs.Evaluation
import SpanishLua.Proofs.Quoting
import SpanishLua.Proofs.Settling

namespace SpanishLua.Proofs.Idempotence

open SpanishLua.Code
open SpanishLua.Text
open SpanishLua.Proofs.Recognisers
open SpanishLua.Proofs.Sweep
open SpanishLua.Proofs.Lines
open SpanishLua.Proofs.Literals
open SpanishLua.Proofs.Grammar
open SpanishLua.Proofs.Stages
open SpanishLua.Proofs.Evaluation
open SpanishLua.Proofs.Edits
open SpanishLua.Proofs.Puts
open SpanishLua.Proofs.Reflections
open SpanishLua.Proofs.Items
open SpanishLua.Proofs.Settling
open SpanishLua.Proofs.Quoting

section Segments

variable {previous : Option Segment} {segments out : List Segment}

theorem exists_of_mem_becomes {rules : RuleTable} (h : Becomes rules previous segments out)
    {lua : List Char} (hlua : .code lua ∈ out) :
    ∃ code, .code code ∈ segments ∧ rewriteCode (.ofTable rules) code = .ok lua := by
  induction h with
  | nil => simp at hlua
  | code hcode hrest ih =>
      rcases List.mem_cons.mp hlua with heq | hlua
      · obtain rfl := Segment.code.inj heq
        exact ⟨_, by simp, hcode⟩
      · obtain ⟨code, hmem, hcode⟩ := ih hlua
        exact ⟨code, List.mem_cons_of_mem _ hmem, hcode⟩
  | literal hliteral hrest ih =>
      obtain ⟨code, hmem, hcode⟩ := ih (by simpa using hlua)
      exact ⟨code, List.mem_cons_of_mem _ hmem, hcode⟩

theorem plain_of_fits {es : List Edit} (h : Fits es) : Plain es := by
  intro hit hhit
  obtain ⟨left, right, rfl⟩ := List.append_of_mem hhit
  have hfit := h left hit right rfl
  obtain ⟨n, htaken, htext⟩ := hfit.neutral
  exact ⟨hfit.opens.taken_ne_nil, hfit.opens.text_ne_nil, htaken.plain, htext.plain⟩

theorem grammatical_of_becomes (h : Becomes RuleTable.default previous segments out)
    (hclean : ∀ code, .code code ∈ segments → Clean code) (hsegments : Grammatical segments) :
    Grammatical out := by
  refine grammatical_of_keepsQuotes h (fun r hr => (tame_target r hr).neutral.plain) ?_ hsegments
  intro code lua hcode hlua
  exact (hclean code hcode).rewriteCode_keeps (P := KeepsQuotes code)
    (fun es hfits hkeeps => hkeeps.trans (plain_of_fits hfits).keepsQuotes) hlua (.refl code)

end Segments

theorem not_overruns_of_chars {N : List Char → List Char → Prop} {s : List Char}
    (h : s.all (fun c => !Enumeration.isItemChar c || isWord c) = true) : ¬ Overruns N s := by
  rintro ⟨before, family, -, name, rest, rfl, -, -, -, hstraddles⟩
  obtain ⟨c, tail, rfl, hitem, hword⟩ := hstraddles.head
  have hc := List.all_eq_true.mp h c (by simp)
  simp [hitem, hword] at hc

/-- Translating a translated line changes nothing, unless the name of an item in it ran on into
another word. -/
theorem translateLine_idempotent {extra : List String} {t : Translator}
    (ht : Translator.ofTable RuleTable.default extra = .ok t) {line lua : List Char}
    (hclean : ∀ code, .code code ∈ partition line → Clean code)
    (hwithin : ∀ code, .code code ∈ partition line → ¬ Overruns AnyName code)
    (hlua : t.translateLine line = .ok lua) : t.translateLine lua = .ok lua := by
  obtain ⟨-, -, hlexicon⟩ := ofTable_eq_ok ht
  obtain ⟨out, rfl, hbecomes⟩ := becomes_of_translateLine ht hlua
  have hpartition : partition (Segment.join out) = out :=
    (grammatical_of_becomes hbecomes hclean (grammatical_partition line)).partition_join
  have hsettled : ∀ lua, .code lua ∈ partition (Segment.join out) →
      rewriteCode t.lexicon lua = .ok lua ∧ ¬ EndsInLookup lua := by
    intro lua hmem
    rw [hpartition] at hmem
    obtain ⟨code, hcode, hrewrite⟩ := exists_of_mem_becomes hbecomes hmem
    rw [hlexicon]
    exact rewriteCode_settles ⟨hclean code hcode, hwithin code hcode⟩ hrewrite
  exact translateLine_of_fixed (fun lua hmem => (hsettled lua hmem).2)
    fun lua hmem => (hsettled lua hmem).1

theorem translateLine_idempotent_roboto :
    let line := "si fuente.Roboto y obtener_servicio('luz') -- Color3.new(1, f(2, 3))".toList
    let lua :=
      "if Enum.Font.Roboto and game:GetService('Lighting') -- Color3.new(1, f(2, 3))".toList
    (∀ code, .code code ∈ partition line → Clean code ∧ ¬ Overruns AnyName code) ∧
      ∃ t, Translator.ofTable RuleTable.default [] = .ok t ∧ t.translateLine line = .ok lua ∧
        t.translateLine lua = .ok lua := by
  intro line lua
  have hpartition : partition line =
      [.code "si fuente.Roboto y obtener_servicio(".toList, .literal "'luz'".toList,
       .code ") -- Color3.new(1, f(2, 3))".toList] := by
    decide +kernel
  have htidy : ∀ code, .code code ∈ partition line → Clean code ∧ ¬ Overruns AnyName code := by
    intro code hcode
    simp only [hpartition, List.mem_cons, Segment.code.injEq, reduceCtorEq, List.not_mem_nil,
      false_or, or_false] at hcode
    rcases hcode with rfl | rfl
    · exact ⟨⟨by decide +kernel, by decide +kernel⟩, not_overruns_of_chars (by decide +kernel)⟩
    · exact ⟨⟨by decide +kernel, by decide +kernel⟩, not_overruns_of_chars (by decide +kernel)⟩
  let t : Translator := ⟨RuleTable.default, .ofExtra [], .ofTable RuleTable.default⟩
  have hlua : t.translateLine line = .ok lua := by
    rw [← translateLine_spelled]
    decide +kernel
  exact ⟨htidy, t, ofTable_default [], hlua, translateLine_idempotent (ofTable_default [])
    (fun code hcode => (htidy code hcode).1) (fun code hcode => (htidy code hcode).2) hlua⟩

/-- A number that is no word character carries the name of an item on into a global function. Once
that has become a sign, the name ends before the number, and only then is it found. -/
theorem translateLine_overrun :
    let line := "fuente.Roboto½longitud(x)".toList
    let lua := "fuente.Roboto½#(x)".toList
    (∀ code, .code code ∈ partition line → Clean code) ∧
      ∃ t, Translator.ofTable RuleTable.default [] = .ok t ∧ t.translateLine line = .ok lua ∧
        t.translateLine lua = .ok "Enum.Font.Roboto½#(x)".toList := by
  intro line lua
  refine ⟨fun code hcode => ?_, _, ofTable_default [], ?_, ?_⟩
  · have hpartition : partition line = [.code line] := by decide +kernel
    rw [hpartition] at hcode
    obtain rfl : code = line := by simpa using hcode
    exact ⟨by decide +kernel, by decide +kernel⟩
  · rw [← translateLine_spelled]
    decide +kernel
  · rw [← translateLine_spelled]
    decide +kernel

end SpanishLua.Proofs.Idempotence
