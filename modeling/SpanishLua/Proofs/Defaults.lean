import SpanishLua.DenyList
import SpanishLua.Proofs.Occurrences
import SpanishLua.Proofs.Tables
import SpanishLua.Rule.Defaults

namespace SpanishLua.Proofs.Defaults

open SpanishLua.Proofs.Occurrences
open SpanishLua.Proofs.Tables

/-- A rule in characters, its bound apart. -/
structure Spelling where
  category : Category
  source : List Char
  target : List Char

/-- The characters of a rule. -/
def spell (r : Rule) : Spelling where
  category := r.category
  source := r.source.toList
  target := r.target.toList

theorem map_spell_cons {category : Category} {source target : List Char} {maxArity : Option Nat}
    {rules : List Rule} {spellings : List Spelling} (h : rules.map spell = spellings) :
    (⟨category, String.ofList source, String.ofList target, maxArity⟩ :: rules).map spell =
      ⟨category, source, target⟩ :: spellings := by
  simp [spell, h]

/-- The default rules in characters. -/
def spellings : { l : List Spelling // RuleTable.default.entries.map spell = l } := by
  apply Subtype.mk
  repeat (first | exact List.map_nil | apply map_spell_cons)

theorem forall_default {p : Spelling → Prop} (h : ∀ x ∈ spellings.val, p x) :
    ∀ r ∈ RuleTable.default.entries, p (spell r) := by
  intro r hr
  apply h
  rw [← spellings.property]
  exact List.mem_map_of_mem hr

theorem default_wellFormed : WellFormed RuleTable.default := by
  have hvalid : ∀ x ∈ spellings.val, x.category.admits x.source = true ∧ x.target ≠ [] := by
    decide +kernel
  have hdistinct : ∀ category ∈ Category.all,
      ((spellings.val.filter (·.category = category)).map (wordKey ·.source)).Nodup := by
    decide +kernel
  constructor
  · intro r hr
    obtain ⟨hsource, htarget⟩ := forall_default hvalid r hr
    have hne : r.target ≠ "" := by simpa [spell] using htarget
    have hadmits : r.hasValidSource = true := hsource
    simp [Rule.isValid, hadmits, hne]
  · intro category
    have hkeys := hdistinct category (mem_all category)
    rw [← spellings.property, List.filter_map, List.map_map] at hkeys
    exact hkeys

theorem default_ascii :
    ∀ r ∈ RuleTable.default.entries, ∀ c ∈ r.source.toList, c.toNat < 128 := by
  have hascii : ∀ x ∈ spellings.val, x.source.all (·.toNat < 128) = true := by decide +kernel
  intro r hr
  simpa [spell] using forall_default hascii r hr

theorem map_toList_cons {word : List Char} {words : List String} {l : List (List Char)}
    (h : words.map String.toList = l) :
    (String.ofList word :: words).map String.toList = word :: l := by
  simp [h]

/-- The words that are always denied, in characters. -/
def deniedSpellings : { l : List (List Char) // DenyList.defaultWords.map String.toList = l } := by
  apply Subtype.mk
  repeat (first | exact List.map_nil | apply map_toList_cons)

theorem forall_defaultWords {p : List Char → Prop} (h : ∀ x ∈ deniedSpellings.val, p x) :
    ∀ w ∈ DenyList.defaultWords, p w.toList := by
  intro w hw
  apply h
  rw [← deniedSpellings.property]
  exact List.mem_map_of_mem hw

theorem default_targets_clean : ∀ r ∈ RuleTable.default.entries, ∀ w ∈ DenyList.defaultWords,
    ¬ Occurs w.toList r.target.toList := by
  have hclean : ∀ x ∈ spellings.val, ∀ w ∈ deniedSpellings.val, ¬ Occurs w x.target := by
    decide +kernel
  intro r hr
  exact forall_defaultWords (forall_default hclean r hr)

end SpanishLua.Proofs.Defaults
