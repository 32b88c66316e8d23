import SpanishLua.Proofs.Defaults
import SpanishLua.Proofs.Denial
import SpanishLua.Proofs.Invariance

namespace SpanishLua.Proofs.Safety

open SpanishLua.Text
open SpanishLua.Proofs.Characters
open SpanishLua.Proofs.Recognisers
open SpanishLua.Proofs.Occurrences
open SpanishLua.Proofs.Tables
open SpanishLua.Proofs.Lines
open SpanishLua.Proofs.Documents
open SpanishLua.Proofs.Denial
open SpanishLua.Proofs.Seams
open SpanishLua.Proofs.Invariance
open SpanishLua.Proofs.Defaults

/-- None of the words that are always denied stands in the text, case apart. -/
def Clean (s : List Char) : Prop :=
  ∀ w ∈ DenyList.defaultWords, ¬ Occurs w.toList s

instance (s : List Char) : Decidable (Clean s) :=
  inferInstanceAs (Decidable (∀ w ∈ DenyList.defaultWords, ¬ Occurs w.toList s))

/-- Every source of the table is ASCII, and every target is clean. -/
structure Harmless (rules : RuleTable) : Prop where
  ascii : AsciiSources rules
  clean : ∀ r ∈ rules.entries, Clean r.target.toList

theorem clean_iff_not_offends {s : List Char} : Clean s ↔ ¬ Offends [] s := by
  constructor
  · rintro hclean ⟨_, ⟨w, hw, rfl⟩ | ⟨entry, hentry, -⟩, h⟩
    · exact hclean w hw h
    · simp at hentry
  · exact fun h w hw hoccurs => h ⟨w.toList, .inl ⟨w, hw, rfl⟩, hoccurs⟩

theorem check_eq_ok_iff_clean {document : List Char} {label : String} :
    (DenyList.ofExtra []).check document label = .ok () ↔
      ∀ line ∈ lines document, Clean line := by
  simp only [check_eq_ok_iff, clean_iff_not_offends]

theorem isWord_of_map_fold_eq {w : String} (hw : w ∈ DenyList.defaultWords) {piece : List Char}
    (h : piece.map fold = w.toList.map fold) : ∀ c ∈ piece, isWord c = true := by
  have hspellings : ∀ w ∈ deniedSpellings.val,
      (w.map fold).all (fun c => 97 ≤ c.toNat ∧ c.toNat ≤ 122) = true := by
    decide
  have hletters : ∀ c ∈ w.toList.map fold, 97 ≤ c.toNat ∧ c.toNat ≤ 122 := by
    simpa only [List.all_eq_true, decide_eq_true_eq] using forall_defaultWords hspellings w hw
  intro c hc
  have hfold : fold c ∈ w.toList.map fold := by
    rw [← h]
    exact List.mem_map_of_mem hc
  obtain ⟨hlow, hhigh⟩ := hletters _ hfold
  exact isWord_of_fold hlow hhigh

theorem wordLocal_clean : WordLocal Clean where
  of_infix := fun hst ht w hw hoccurs => ht w hw (hoccurs.of_infix hst)
  append := by
    intro s t hseam hs ht w hw hoccurs
    obtain ⟨piece, hpiece, hfold⟩ := occurs_iff_exists_piece.mp hoccurs
    have hne : piece ≠ [] := by
      rintro rfl
      have hempty : ∀ w ∈ deniedSpellings.val, w ≠ [] := by decide
      exact forall_defaultWords hempty w hw (by simpa using hfold.symm)
    rcases hseam.infix_or ⟨hne, isWord_of_map_fold_eq hw hfold⟩ hpiece with hleft | hright
    · exact hs w hw (occurs_iff_exists_piece.mpr ⟨piece, hleft, hfold⟩)
    · exact ht w hw (occurs_iff_exists_piece.mpr ⟨piece, hright, hfold⟩)

theorem fixedTexts_clean : ∀ s ∈ fixedTexts, Clean s := by
  decide

theorem supplies_clean {rules : RuleTable} (hrules : WellFormed rules) (h : Harmless rules) :
    Supplies Clean rules :=
  ⟨hrules, h.ascii, h.clean, fixedTexts_clean⟩

theorem harmless_default : Harmless RuleTable.default :=
  ⟨default_ascii, default_targets_clean⟩

theorem exists_translator_default : ∃ t, Translator.ofTable RuleTable.default [] = .ok t :=
  exists_ofTable default_wellFormed []

/-- The default table is accepted and harmless; and with any accepted table that is harmless, a text
that comes out of a translation under the default deny-list passes that list again. -/
theorem check_translate :
    (∃ t, Translator.ofTable RuleTable.default [] = .ok t) ∧ Harmless RuleTable.default ∧
      ∀ rules t, Translator.ofTable rules [] = .ok t → Harmless rules →
        ∀ document label out, t.translate document label = .ok out →
          ∀ label', t.denyList.check out label' = .ok () := by
  refine ⟨exists_translator_default, harmless_default, ?_⟩
  intro rules t ht hharmless document label out hout label'
  obtain ⟨hrules, hdenyList, -⟩ := ofTable_eq_ok ht
  obtain ⟨hcheck, -⟩ := translate_eq_ok_iff.mp hout
  rw [hdenyList] at hcheck ⊢
  have hdocument := check_eq_ok_iff_clean.mp hcheck
  have hfeed : Clean ['\n'] := by decide +kernel
  have hclean : Clean out :=
    (supplies_clean hrules hharmless).translate wordLocal_clean hfeed ht hout hdocument
  rw [check_eq_ok_iff_clean]
  exact fun line hline => wordLocal_clean.of_infix (infix_of_mem_lines hline) hclean

theorem check_translate_halves :
    let rules : RuleTable :=
      ⟨[⟨.serviceName, "luz", "Lighting", none⟩, ⟨.keyword, "fin", "end", none⟩]⟩
    let document := "debu_nuevo(g)\nraw_brillante get\nobtener_servicio('luz')fin".toList
    let out :=
      "debu.new(g)\nBrickColor.new(\"Bright raw\") get\ngame:GetService('Lighting')end".toList
    ∃ t, Translator.ofTable rules [] = .ok t ∧ Harmless rules ∧
      t.translate document "guion" = .ok out ∧ t.denyList.check out "guion" = .ok () := by
  intro rules document out
  let t : Translator := ⟨rules, .ofExtra [], .ofTable rules⟩
  have ht : Translator.ofTable rules [] = .ok t := by
    have hfault : rules.fault? = none := by decide +kernel
    rw [Translator.ofTable, hfault]
  have hascii : ∀ r ∈ rules.entries, r.source.toList.all (·.toNat < 128) = true := by
    decide +kernel
  have hharmless : Harmless rules :=
    ⟨fun r hr => by simpa using hascii r hr, by decide +kernel⟩
  have hout : t.translate document "guion" = .ok out := by decide +kernel
  exact ⟨t, ht, hharmless, hout,
    check_translate.2.2 rules t ht hharmless document "guion" out hout "guion"⟩

end SpanishLua.Proofs.Safety
